import OgsDp.Lib.Checked

/-!
# Decoders and what they read

A decoder takes a value off a list and leaves the rest, or stops. It reads the encoding of the
values with a property if it succeeds on nothing else. Such decoders can be put one after the
other, and then what stops them is known as well.
-/

namespace OgsDp.Lib

universe u v

variable {α β γ : Type u} {ε : Type v}

/-- `decode` succeeds exactly on the encoding of a value with `P`, and leaves what is behind it. -/
def Reads (decode : List α → Except ε (β × List α)) (encode : β → List α) (P : β → Prop) : Prop :=
  ∀ l b rest,decode l = .ok (b,rest) ↔ P b ∧ l=encode b++rest

variable {decode : List α → Except ε (β × List α)} {encode : β → List α} {P : β → Prop}
  {f : β × List α → Except ε γ} {l rest : List α} {b : β} {c : γ} {e : ε}

namespace Reads

theorem append (h : Reads decode encode P) (hb : P b) (rest : List α) :
    decode (encode b++rest) = .ok (b,rest) :=
  (h _ b rest).mpr ⟨hb,rfl⟩

/-- What follows a decoder yields a value exactly if it does so on what the decoder leaves. -/
theorem bind_ok (h : Reads decode encode P) :
    (decode l >>= f) = .ok c ↔ ∃ b rest,P b ∧ l=encode b++rest ∧ f (b,rest) = .ok c := by
  constructor
  · intro hok
    cases hd : decode l with
    | error e =>
      rw [hd] at hok
      cases hok
    | ok r =>
      obtain ⟨b,rest⟩ := r
      rw [hd] at hok
      obtain ⟨hb,hl⟩ := (h l b rest).mp hd
      exact ⟨b,rest,hb,hl,hok⟩
  · rintro ⟨b,rest,hb,rfl,hok⟩
    rw [h.append hb]
    exact hok

/-- It stops where the decoder stops, or behind what the decoder read. -/
theorem bind_error (h : Reads decode encode P) :
    (decode l >>= f) = .error e ↔
      decode l = .error e ∨ ∃ b rest,P b ∧ l=encode b++rest ∧ f (b,rest) = .error e := by
  constructor
  · intro herr
    cases hd : decode l with
    | error e' =>
      rw [hd] at herr
      cases herr
      exact .inl rfl
    | ok r =>
      obtain ⟨b,rest⟩ := r
      rw [hd] at herr
      obtain ⟨hb,hl⟩ := (h l b rest).mp hd
      exact .inr ⟨b,rest,hb,hl,herr⟩
  · rintro (hd | ⟨b,rest,hb,rfl,herr⟩)
    · rw [hd]
      rfl
    · rw [h.append hb]
      exact herr

theorem of_iff {Q : β → Prop} (h : Reads decode encode P) (hQ : ∀ b,P b ↔ Q b) :
    Reads decode encode Q := by
  intro l b rest
  rw [h,hQ]

end Reads

section Combine

variable {δ : Type u} {decode' : List α → Except ε (γ × List α)} {encode' : γ → List α}
  {P' : γ → Prop}

theorem Reads.map (h : Reads decode encode P) (mk : β → δ) {enc : δ → List α}
    (henc : ∀ b,enc (mk b)=encode b) :
    Reads (fun l => decode l >>= fun r => .ok (mk r.1,r.2)) enc
      fun d => ∃ b,P b ∧ d=mk b := by
  intro l d rest
  rw [h.bind_ok]
  constructor
  · rintro ⟨b,rest',hb,rfl,hok⟩
    obtain ⟨rfl,rfl⟩ := Prod.mk.inj (Except.ok.inj hok)
    exact ⟨⟨b,hb,rfl⟩,by rw [henc]⟩
  · rintro ⟨⟨b,hb,rfl⟩,rfl⟩
    exact ⟨b,rest,hb,by rw [henc],rfl⟩

theorem Reads.pair (h : Reads decode encode P) (h' : Reads decode' encode' P') (mk : β → γ → δ)
    {enc : δ → List α} (henc : ∀ b c,enc (mk b c)=encode b++encode' c) :
    Reads (fun l => decode l >>= fun r => decode' r.2 >>= fun s => .ok (mk r.1 s.1,s.2)) enc
      fun d => ∃ b c,P b ∧ P' c ∧ d=mk b c := by
  intro l d rest
  rw [h.bind_ok]
  constructor
  · rintro ⟨b,rest',hb,rfl,hok⟩
    obtain ⟨c,rest'',hc,hrest,hok⟩ := h'.bind_ok.mp hok
    obtain ⟨rfl,rfl⟩ := Prod.mk.inj (Except.ok.inj hok)
    simp only at hrest
    refine ⟨⟨b,c,hb,hc,rfl⟩,?_⟩
    rw [henc,hrest,List.append_assoc]
  · rintro ⟨⟨b,c,hb,hc,rfl⟩,rfl⟩
    refine ⟨b,encode' c++rest,hb,by rw [henc,List.append_assoc],?_⟩
    exact h'.bind_ok.mpr ⟨c,rest,hc,rfl,rfl⟩

/-- Nothing but `e` stops the decoder. -/
def StopsWith (decode : List α → Except ε (β × List α)) (e : ε) : Prop :=
  ∀ l e',decode l = .error e' → e'=e

theorem StopsWith.bind {f : β × List α → Except ε (δ × List α)} (h : StopsWith decode e)
    (hf : ∀ b,StopsWith (fun l => f (b,l)) e) : StopsWith (fun l => decode l >>= f) e := by
  intro l e' herr
  cases hd : decode l with
  | error e'' =>
    simp only [hd] at herr
    cases herr
    exact h l _ hd
  | ok r =>
    simp only [hd] at herr
    exact hf r.1 r.2 e' herr

theorem StopsWith.map (h : StopsWith decode e) (mk : β → δ) :
    StopsWith (fun l => decode l >>= fun r => .ok (mk r.1,r.2)) e :=
  h.bind fun _ _ _ herr => nomatch herr

theorem StopsWith.pair (h : StopsWith decode e) (h' : StopsWith decode' e) (mk : β → γ → δ) :
    StopsWith (fun l => decode l >>= fun r => decode' r.2 >>= fun s => .ok (mk r.1 s.1,s.2)) e :=
  h.bind fun b => h'.map (mk b)

end Combine

/-! ### A fixed number of elements -/

/-- The first `n` elements; the decoder stops with `e` if there are fewer. -/
def readVec (e : ε) (n : Nat) (l : List α) : Except ε (Vector α n × List α) :=
  if h : n≤l.length then
    .ok (⟨(l.take n).toArray,by rw [List.size_toArray,List.length_take]; omega⟩,l.drop n)
  else .error e

theorem reads_readVec (e : ε) (n : Nat) :
    Reads (readVec (α := α) e n) Vector.toList fun _ => True := by
  intro l v rest
  unfold readVec
  constructor
  · intro h
    split at h
    · obtain ⟨hv,hrest⟩ := Prod.mk.inj (Except.ok.inj h)
      subst hv hrest
      exact ⟨trivial,(List.take_append_drop n l).symm⟩
    · cases h
  · rintro ⟨-,rfl⟩
    have hlen : v.toList.length=n := v.length_toList
    rw [dif_pos (by rw [List.length_append,hlen]; omega)]
    have htake : (v.toList++rest).take n=v.toList := List.take_left' hlen
    have hdrop : (v.toList++rest).drop n=rest := List.drop_left' hlen
    simp only [htake,hdrop]
    congr 2

theorem readVec_error {e' : ε} {n : Nat} :
    readVec e n l = .error e' ↔ l.length<n ∧ e'=e := by
  unfold readVec
  split
  · exact iff_of_false nofun fun hshort => by omega
  · rename_i hshort
    constructor
    · intro h
      exact ⟨by omega,(Except.error.inj h).symm⟩
    · rintro ⟨-,rfl⟩
      rfl

theorem stopsWith_readVec (e : ε) (n : Nat) : StopsWith (readVec (α := α) e n) e :=
  fun _ _ h => (readVec_error.mp h).2

def readOne (e : ε) : List α → Except ε (α × List α)
  | [] => .error e
  | a::l => .ok (a,l)

theorem reads_readOne (e : ε) : Reads (readOne (α := α) e) (fun a => [a]) fun _ => True := by
  intro l a rest
  cases l with
  | nil => exact iff_of_false nofun fun h => nomatch h.2
  | cons b l =>
    constructor
    · intro h
      obtain ⟨rfl,rfl⟩ := Prod.mk.inj (Except.ok.inj h)
      exact ⟨trivial,rfl⟩
    · rintro ⟨-,h⟩
      obtain ⟨rfl,rfl⟩ := List.cons.inj h
      rfl

theorem readOne_error {e' : ε} : readOne e l = .error e' ↔ l=[] ∧ e'=e := by
  cases l with
  | nil => exact ⟨fun h => ⟨rfl,(Except.error.inj h).symm⟩,fun h => by rw [h.2]; rfl⟩
  | cons a l => exact iff_of_false nofun fun h => nomatch h.1

theorem stopsWith_readOne (e : ε) : StopsWith (readOne (α := α) e) e :=
  fun _ _ h => (readOne_error.mp h).2

/-! ### A check before the read -/

/-- A check that `n` elements are there before they are read; it stops with `e`. -/
def guarded (n : Nat) (e : ε) (read : List α → Except ε γ) (l : List α) : Except ε γ :=
  if n≤l.length then read l else .error e

@[simp] theorem guarded_readVec (n : Nat) (e e' : ε) :
    guarded n e (readVec (α := α) e' n)=readVec e n := by
  funext l
  unfold guarded readVec
  split <;> rfl

@[simp] theorem guarded_readOne (e e' : ε) : guarded 1 e (readOne (α := α) e')=readOne e := by
  funext l
  cases l with
  | nil => rfl
  | cons a l => exact if_pos (Nat.succ_pos l.length)

/-- The check does not change what is read if all that is read is as long. -/
theorem Reads.guarded (h : Reads decode encode P) {n : Nat} (e : ε)
    (hlen : ∀ b,n≤(encode b).length) : Reads (guarded n e decode) encode P := by
  intro l b rest
  unfold Lib.guarded
  constructor
  · intro hok
    split at hok
    · exact (h l b rest).mp hok
    · cases hok
  · rintro ⟨hb,rfl⟩
    rw [if_pos (by rw [List.length_append]; exact Nat.le_add_right_of_le (hlen b))]
    exact h.append hb rest

/-- It stops with its own error if the read needs no more than was checked. -/
theorem StopsWith.guarded {n : Nat} (hread : ∀ l e',decode l = .error e' → l.length<n) (e : ε) :
    StopsWith (guarded n e decode) e := by
  intro l e' herr
  unfold Lib.guarded at herr
  split at herr
  · rename_i hn
    exact absurd (hread l e' herr) (Nat.not_lt.mpr hn)
  · exact (Except.error.inj herr).symm

/-! ### One value after the other -/

/-- `n` values. -/
def readMany (decode : List α → Except ε (β × List α)) :
    Nat → List α → Except ε (List β × List α)
  | 0, l => .ok ([],l)
  | n+1, l => decode l >>= fun r => readMany decode n r.2 >>= fun s => .ok (r.1::s.1,s.2)

theorem reads_readMany (h : Reads decode encode P) (n : Nat) :
    Reads (readMany decode n) (List.flatMap encode) fun bs => bs.length=n ∧ ∀ b∈bs,P b := by
  induction n with
  | zero =>
    intro l bs rest
    constructor
    · intro hok
      obtain ⟨rfl,rfl⟩ := Prod.mk.inj (Except.ok.inj hok)
      exact ⟨⟨rfl,fun b hb => absurd hb (List.not_mem_nil)⟩,rfl⟩
    · rintro ⟨⟨hlen,-⟩,rfl⟩
      rw [List.eq_nil_of_length_eq_zero hlen]
      rfl
  | succ n ih =>
    intro l bs rest
    rw [readMany,h.bind_ok]
    constructor
    · rintro ⟨b,rest',hb,rfl,hok⟩
      obtain ⟨bs',rest'',⟨hlen,hall⟩,rfl,hlast⟩ := ih.bind_ok.mp hok
      obtain ⟨rfl,rfl⟩ := Prod.mk.inj (Except.ok.inj hlast)
      refine ⟨⟨by rw [List.length_cons,hlen],List.forall_mem_cons.mpr ⟨hb,hall⟩⟩,?_⟩
      exact (List.append_assoc ..).symm
    · rintro ⟨⟨hlen,hall⟩,rfl⟩
      obtain ⟨b,bs',rfl⟩ := List.exists_cons_of_length_eq_add_one hlen
      obtain ⟨hb,hall'⟩ := List.forall_mem_cons.mp hall
      refine ⟨b,bs'.flatMap encode++rest,hb,by rw [List.flatMap_cons,List.append_assoc],?_⟩
      exact ih.bind_ok.mpr ⟨bs',rest,⟨Nat.succ.inj hlen,hall'⟩,rfl,rfl⟩

theorem readMany_error (h : Reads decode encode P) {n : Nat} :
    readMany decode n l = .error e ↔
      ∃ (bs : List β) (rest : List α),bs.length<n ∧ (∀ b∈bs,P b) ∧
        l=bs.flatMap encode++rest ∧ decode rest = .error e := by
  induction n generalizing l with
  | zero =>
    refine iff_of_false nofun ?_
    rintro ⟨bs,-,hlen,-⟩
    exact absurd hlen (Nat.not_lt_zero _)
  | succ n ih =>
    rw [readMany,h.bind_error]
    constructor
    · rintro (hstop | ⟨b,rest,hb,rfl,herr⟩)
      · exact ⟨[],l,Nat.succ_pos n,fun b hb => absurd hb List.not_mem_nil,rfl,hstop⟩
      · rcases (reads_readMany h n).bind_error.mp herr with herr | ⟨_,_,_,_,herr⟩
        · obtain ⟨bs,rest',hlen,hall,rfl,hstop⟩ := ih.mp herr
          refine ⟨b::bs,rest',by rw [List.length_cons]; omega,
            List.forall_mem_cons.mpr ⟨hb,hall⟩,?_,hstop⟩
          rw [List.flatMap_cons,List.append_assoc]
        · cases herr
    · rintro ⟨bs,rest,hlen,hall,rfl,hstop⟩
      cases bs with
      | nil => exact .inl hstop
      | cons b bs =>
        obtain ⟨hb,hall'⟩ := List.forall_mem_cons.mp hall
        rw [List.length_cons] at hlen
        refine .inr ⟨b,bs.flatMap encode++rest,hb,by
          rw [List.flatMap_cons,List.append_assoc],?_⟩
        exact (reads_readMany h n).bind_error.mpr
          (.inl (ih.mpr ⟨bs,rest,by omega,hall',rfl,hstop⟩))

/-- An array with these entries, and `zero` behind them. -/
def padded (zero : β) (n : Nat) (bs : List β) : Vector β n :=
  Vector.ofFn fun i => bs.getD i.val zero

theorem getElem_padded (zero : β) {n i : Nat} (bs : List β) (hi : i<n) :
    (padded zero n bs)[i]=bs.getD i zero := Vector.getElem_ofFn hi

theorem take_padded {zero : β} {n k : Nat} {bs : List β} (hlen : bs.length=min k n) :
    (padded zero n bs).toList.take k=bs := by
  apply List.ext_getElem
  · rw [List.length_take,Vector.length_toList,hlen]
  · intro i hi hi'
    rw [List.getElem_take,Vector.getElem_toList,getElem_padded,List.getD,
      List.getElem?_eq_getElem hi']
    rfl

/-! ### Until the end -/

/-- Values into an array with `room` for them, until the end or until the decoder stops. It is a
fault to write a value behind the array, and what stops the decoder may be one. -/
def readAll (decode : List α → Except ε (β × List α)) (fault : ε → Option Fault) :
    Nat → List α → Except Fault (List β)
  | _, [] => .ok []
  | 0, _::_ => .error .write
  | room+1, a::l =>
    match decode (a::l) with
    | .ok r => (readAll decode fault room r.2).map (r.1 :: ·)
    | .error e => (fault e).elim (.ok []) .error

section ReadAll

variable {fault : ε → Option Fault} {room : Nat}

theorem readAll_read {a : α} {l : List α} {r : β × List α} (h : decode (a::l) = .ok r) :
    readAll decode fault (room+1) (a::l)=(readAll decode fault room r.2).map (r.1 :: ·) := by
  rw [readAll,h]

theorem readAll_append (h : Reads decode encode P) (hne : ∀ b,encode b≠[]) {bs : List β}
    (hall : ∀ b∈bs,P b) (rest : List α) :
    readAll decode fault (bs.length+room) (bs.flatMap encode++rest) =
      (readAll decode fault room rest).map (bs ++ ·) := by
  induction bs with
  | nil =>
    simp only [List.length_nil,Nat.zero_add,List.flatMap_nil,List.nil_append]
    cases readAll decode fault room rest <;> rfl
  | cons b bs ih =>
    obtain ⟨hb,hall'⟩ := List.forall_mem_cons.mp hall
    obtain ⟨a,l,hl⟩ := List.exists_cons_of_ne_nil (hne b)
    have hroom : (b::bs).length+room=bs.length+room+1 := by
      rw [List.length_cons]
      omega
    have hread:=h.append hb (bs.flatMap encode++rest)
    rw [List.flatMap_cons,List.append_assoc,hroom]
    rw [hl,List.cons_append] at hread ⊢
    rw [readAll_read hread]
    show (readAll decode fault (bs.length+room) (bs.flatMap encode++rest)).map _=_
    rw [ih hall']
    cases readAll decode fault room rest <;> rfl

theorem readAll_flatMap (h : Reads decode encode P) (hne : ∀ b,encode b≠[]) {bs : List β}
    (hall : ∀ b∈bs,P b) (hroom : bs.length ≤ room) :
    readAll decode fault room (bs.flatMap encode) = .ok bs := by
  obtain ⟨more,rfl⟩ := Nat.exists_eq_add_of_le hroom
  have happend : readAll decode fault (bs.length+more) (bs.flatMap encode++[]) =
      (readAll decode fault more []).map (bs ++ ·) := readAll_append h hne hall []
  rw [List.append_nil] at happend
  have hnil : readAll decode fault more [] = .ok [] := by cases more <;> rfl
  rw [happend,hnil]
  show Except.ok (bs++[])=_
  rw [List.append_nil]

theorem readAll_cons {l : List α} {b : β} {bs : List β}
    (hok : readAll decode fault room l = .ok (b::bs)) :
    ∃ room' left,room=room'+1 ∧ decode l = .ok (b,left) ∧
      readAll decode fault room' left = .ok bs := by
  cases l with
  | nil => cases room <;> cases hok
  | cons a l =>
    cases room with
    | zero => cases hok
    | succ room =>
      rw [readAll] at hok
      cases hd : decode (a::l) with
      | ok r =>
        rw [hd] at hok
        cases hleft : readAll decode fault room r.2 with
        | error f =>
          simp only [hleft] at hok
          cases hok
        | ok bs' =>
          simp only [hleft] at hok
          obtain ⟨rfl,rfl⟩ := List.cons.inj (Except.ok.inj hok)
          exact ⟨room,r.2,rfl,rfl,hleft⟩
      | error e =>
        rw [hd] at hok
        cases hf : fault e with
        | none =>
          simp only [hf,Option.elim_none] at hok
          cases hok
        | some f =>
          simp only [hf,Option.elim_some] at hok
          cases hok

theorem readAll_ok (h : Reads decode encode P) {l : List α} {bs : List β}
    (hok : readAll decode fault room l = .ok bs) :
    (∀ b∈bs,P b) ∧ ∃ rest,l=bs.flatMap encode++rest := by
  induction bs generalizing room l with
  | nil => exact ⟨fun b hb => absurd hb List.not_mem_nil,l,rfl⟩
  | cons b bs ih =>
    obtain ⟨room',left,-,hd,hleft⟩ := readAll_cons hok
    obtain ⟨hb,rfl⟩ := (h l b left).mp hd
    obtain ⟨hall,rest,rfl⟩ := ih hleft
    refine ⟨List.forall_mem_cons.mpr ⟨hb,hall⟩,rest,?_⟩
    rw [List.flatMap_cons,List.append_assoc]

theorem readAll_error (h : Reads decode encode P) {l : List α} {f : Fault} :
    readAll decode fault room l = .error f ↔
      ∃ (bs : List β) (rest : List α),(∀ b∈bs,P b) ∧
        l=bs.flatMap encode++rest ∧ rest≠[] ∧
        (bs.length=room ∧ f = .write ∨
          bs.length < room ∧ ∃ e,decode rest = .error e ∧ fault e=some f) := by
  induction room generalizing l with
  | zero =>
    cases l with
    | nil =>
      refine iff_of_false nofun ?_
      rintro ⟨bs,rest,-,hl,hrest,-⟩
      exact hrest (List.append_eq_nil_iff.mp hl.symm).2
    | cons a l =>
      constructor
      · intro herr
        exact ⟨[],a::l,fun b hb => absurd hb List.not_mem_nil,rfl,List.cons_ne_nil a l,
          .inl ⟨rfl,(Except.error.inj herr).symm⟩⟩
      · rintro ⟨bs,rest,-,-,-,⟨-,rfl⟩ | ⟨hlt,-⟩⟩
        · rfl
        · exact absurd hlt (Nat.not_lt_zero _)
  | succ room ih =>
    cases l with
    | nil =>
      refine iff_of_false nofun ?_
      rintro ⟨bs,rest,-,hl,hrest,-⟩
      exact hrest (List.append_eq_nil_iff.mp hl.symm).2
    | cons a l =>
      rw [readAll]
      cases hd : decode (a::l) with
      | ok r =>
        obtain ⟨b,left⟩ := r
        obtain ⟨hb,hl⟩ := (h _ b left).mp hd
        have hmap : ((readAll decode fault room left).map (b :: ·) = .error f) ↔
            readAll decode fault room left = .error f := by
          cases readAll decode fault room left with
          | ok bs => exact iff_of_false nofun nofun
          | error e => exact Iff.rfl
        rw [hmap,ih]
        constructor
        · rintro ⟨bs,rest,hall,hleft,hrest,hend⟩
          refine ⟨b::bs,rest,List.forall_mem_cons.mpr ⟨hb,hall⟩,?_,hrest,?_⟩
          · rw [hl,hleft,List.flatMap_cons,List.append_assoc]
          · exact hend.imp (fun hfull => ⟨congrArg Nat.succ hfull.1,hfull.2⟩)
              fun hlt => ⟨Nat.succ_lt_succ hlt.1,hlt.2⟩
        · rintro ⟨bs,rest,hall,hbs,hrest,hend⟩
          cases bs with
          | nil =>
            rcases hend with ⟨hzero,-⟩ | ⟨-,e,hstop,-⟩
            · exact absurd hzero (Nat.succ_ne_zero room).symm
            · have hsame : a::l=rest := hbs
              rw [← hsame,hd] at hstop
              cases hstop
          | cons b' bs =>
            obtain ⟨hb',hall'⟩ := List.forall_mem_cons.mp hall
            rw [List.flatMap_cons,List.append_assoc] at hbs
            have hread:=h.append hb' (bs.flatMap encode++rest)
            rw [← hbs,hd] at hread
            obtain ⟨rfl,rfl⟩ := Prod.mk.inj (Except.ok.inj hread)
            refine ⟨bs,rest,hall',rfl,hrest,?_⟩
            exact hend.imp (fun hfull => ⟨Nat.succ.inj hfull.1,hfull.2⟩)
              fun hlt => ⟨Nat.lt_of_succ_lt_succ hlt.1,hlt.2⟩
      | error e =>
        show ((fault e).elim (.ok []) Except.error : Except Fault (List β)) = .error f ↔ _
        constructor
        · intro herr
          cases he : fault e with
          | none =>
            rw [he] at herr
            cases herr
          | some f' =>
            rw [he] at herr
            obtain rfl : f'=f := Except.error.inj herr
            exact ⟨[],a::l,fun b hb => absurd hb List.not_mem_nil,rfl,
              List.cons_ne_nil a l,.inr ⟨Nat.succ_pos room,e,hd,he⟩⟩
        · rintro ⟨bs,rest,hall,hbs,hrest,hend⟩
          cases bs with
          | nil =>
            have hsame : a::l=rest := hbs
            rcases hend with ⟨hzero,-⟩ | ⟨-,e',hstop,hf⟩
            · exact absurd hzero (Nat.succ_ne_zero room).symm
            · rw [← hsame,hd] at hstop
              rw [Except.error.inj hstop,hf]
              rfl
          | cons b' bs =>
            obtain ⟨hb',-⟩ := List.forall_mem_cons.mp hall
            rw [List.flatMap_cons,List.append_assoc] at hbs
            have hread:=h.append hb' (bs.flatMap encode++rest)
            rw [← hbs,hd] at hread
            cases hread

end ReadAll

end OgsDp.Lib
