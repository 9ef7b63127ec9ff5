import OgsDp.Pfcp.Rules

/-!
# Copies of F-TEIDs (lib/pfcp/handler.c, context.c, build.c)

The length of an F-TEID is kept beside it and is the size of later copies. A structure of type
`ogs_pfcp_f_teid_t` has 25 octets.
-/

namespace OgsDp.Pfcp
open Lib OgsDp.Core Function

def sizeofFTeid : Nat := 25

/-- A call of `memcpy`: what can be read, what can be written, and the size. -/
structure Copy where
  readable : Nat
  writable : Nat
  size : Nat

def Copy.Inside (x : Copy) : Prop := x.size≤x.readable ∧ x.size≤x.writable

def ieCopies (ie : Option (List Byte)) : List Copy :=
  ie.toList.flatMap fun data =>
    [⟨data.length,sizeofFTeid,min sizeofFTeid data.length⟩,
      ⟨data.length,sizeofFTeid,min sizeofFTeid data.length⟩]

def Context.fTeidCopies (c : Context) : Op → List Copy
  | .handleCreatePdr _ _ _ m => ieCopies ((m.bind CreatePdr.pdi).bind Pdi.localFTeid)
  | .handleCreatedPdr _ _ m => ieCopies (m.bind CreatedPdr.localFTeid)
  | .handleUpdatePdr _ _ m => ieCopies ((m.bind UpdatePdr.pdi).bind Pdi.localFTeid)
  | .objectTeidHashSet _ _ _ p =>
    let x:=c.pdr p
    (pdrFindByChooseId c x.sess x.fTeid.chooseId).toList.map fun p' =>
      ⟨sizeofFTeid,sizeofFTeid,(c.pdr p').fTeidLen⟩
  | _ => []

-- `ogs_pfcp_build_create_pdr` and `ogs_pfcp_build_created_pdr`, into `pdrbuf`.
def buildCopies (x : Pdr) : List Copy :=
  if x.fTeidLen=0 then [] else [⟨sizeofFTeid,sizeofFTeid,x.fTeidLen⟩]

def Context.FTeidsFit (c : Context) : Prop :=
  ∀ s,∀ p∈c.pdrList s,(c.pdr p).fTeidLen ≤ sizeofFTeid

/-- Every copy that a call or a builder would make now stays inside. -/
structure Context.CopiesInside (c : Context) : Prop where
  lengths : c.FTeidsFit
  calls : ∀ op,∀ x∈c.fTeidCopies op,x.Inside
  builders : ∀ s,∀ p∈c.pdrList s,∀ x∈buildCopies (c.pdr p),x.Inside

theorem ieCopies_inside (ie : Option (List Byte)) : ∀ x∈ieCopies ie,x.Inside := by
  cases ie with
  | none => exact nofun
  | some data =>
    intro x hx
    simp only [ieCopies,Option.toList_some,List.flatMap_cons,List.flatMap_nil,List.append_nil,
      List.mem_cons,List.not_mem_nil,or_false,or_self] at hx
    subst hx
    exact ⟨Nat.min_le_right _ _,Nat.min_le_left _ _⟩

theorem Context.FTeidsFit.copiesInside {c : Context} (h : c.FTeidsFit) : c.CopiesInside where
  lengths := h
  calls := by
    intro op
    cases op with
    | handleCreatePdr => exact ieCopies_inside _
    | handleCreatedPdr => exact ieCopies_inside _
    | handleUpdatePdr => exact ieCopies_inside _
    | objectTeidHashSet env type s p =>
      intro x hx
      obtain ⟨p',hp',rfl⟩ := List.mem_map.mp hx
      have hfind:=List.mem_of_find?_eq_some (Option.mem_toList.mp hp')
      exact ⟨h _ p' hfind,h _ p' hfind⟩
    | _ => exact nofun
  builders := by
    intro s p hp x hx
    unfold buildCopies at hx
    split at hx
    · cases hx
    · obtain rfl := List.mem_singleton.mp hx
      exact ⟨h s p hp,h s p hp⟩

namespace Context

def Fits (c : Context) : Prop := ∀ p,(c.pdr p).fTeidLen ≤ sizeofFTeid

variable {c c' : Context} {s p : Nat}

theorem Fits.congr (h : c.Fits) (hpdr : c'.pdr=c.pdr) : c'.Fits := by
  intro q
  rw [hpdr]
  exact h q

theorem Fits.update (h : c.Fits) {x : Pdr} (hx : x.fTeidLen ≤ sizeofFTeid)
    (hpdr : c'.pdr=update c.pdr p x) : c'.Fits := by
  intro q
  rw [hpdr]
  by_cases he : q=p
  · rw [he,update_self]
    exact hx
  · rw [update_of_ne he]
    exact h q

theorem Fits.modify (h : c.Fits) (p : Nat) {f : Pdr → Pdr}
    (hf : (f (c.pdr p)).fTeidLen ≤ sizeofFTeid) : (c.modify p f).Fits :=
  h.update hf rfl

theorem Fits.keep (h : c.Fits) (p : Nat) {f : Pdr → Pdr} (hf : ∀ x,(f x).fTeidLen=x.fTeidLen) :
    (c.modify p f).Fits := by
  apply h.modify p
  rw [hf]
  exact h p

theorem Fits.pdrAdd (h : c.Fits) (s : Nat) : (Pfcp.pdrAdd c s).Returns fun c' _ => c'.Fits := by
  unfold Pfcp.pdrAdd
  rcases c.pdrPool.alloc with ⟨pool,_ | p⟩
  · exact h
  · dsimp only
    rcases c.teidPool.alloc with ⟨teidPool,_ | k⟩
    · trivial
    · simp only [Context.modify,update_self,update_idem]
      rcases (c.pdrIdPool s).alloc with ⟨idPool,_ | i⟩
      · exact h.update (p := p) (Nat.zero_le _) rfl
      · dsimp only
        split
        · exact h.update (p := p) (Nat.zero_le _) rfl
        · trivial

theorem Fits.pdrFindOrAdd (h : c.Fits) (s : Nat) (id : BitVec 16) :
    (Pfcp.pdrFindOrAdd c s id).Returns fun c' _ => c'.Fits := by
  unfold Pfcp.pdrFindOrAdd
  split
  · exact h
  · apply (h.pdrAdd s).bind
    intro c' r hc'
    cases r with
    | none => trivial
    | some p => exact hc'.keep p fun _ => rfl

theorem Fits.pdrSwapTeid (h : c.Fits) (p : Nat) :
    (Pfcp.pdrSwapTeid c p).Returns fun c' _ => c'.Fits := by
  simp only [Pfcp.pdrSwapTeid]
  split
  · split
    · split
      · split
        · exact h
        · exact h
      · trivial
    · exact h
  · trivial

theorem Fits.pdrRemove (h : c.Fits) (p : Nat) : (Pfcp.pdrRemove c p).Fits := by
  apply h.congr
  simp only [Pfcp.pdrRemove]
  split <;> rfl

theorem fTeidOfAddrs_length {addr : Option Addr} {addr6 : Option Addr6} {f : FTeid} {len : Nat}
    (h : fTeidOfAddrs addr addr6=some (f,len)) : len ≤ sizeofFTeid := by
  cases addr with
  | none =>
    cases addr6 with
    | none => cases h
    | some addr6 =>
      obtain ⟨-,rfl⟩ := Prod.mk.inj (Option.some.inj h)
      decide
  | some addr =>
    cases addr6 with
    | none =>
      obtain ⟨-,rfl⟩ := Prod.mk.inj (Option.some.inj h)
      decide
    | some addr6 =>
      obtain ⟨-,rfl⟩ := Prod.mk.inj (Option.some.inj h)
      decide

theorem chooseFTeid_length {env : Env} {x : Pdr} {f : FTeid} {len : Nat}
    (h : chooseFTeid env x=some (f,len)) : len ≤ sizeofFTeid := by
  unfold chooseFTeid at h
  split at h
  · obtain ⟨r,hr,heq⟩ := Option.map_eq_some_iff.mp h
    obtain ⟨-,rfl⟩ := Prod.mk.inj heq
    exact fTeidOfAddrs_length hr
  · obtain ⟨r,hr,heq⟩ := Option.map_eq_some_iff.mp h
    obtain ⟨-,rfl⟩ := Prod.mk.inj heq
    exact fTeidOfAddrs_length hr

theorem Fits.pdrChooseFTeid (h : c.Fits) (env : Env) (p : Nat) :
    (Pfcp.pdrChooseFTeid env c p).Returns fun c' _ => c'.Fits := by
  simp only [Pfcp.pdrChooseFTeid]
  split
  · split
    · next p' _ =>
      split
      · exact h.modify p (h p')
      · trivial
    · have hchid : Context.Fits (if (c.pdr p).fTeid.chid then
          c.modify p fun x => { x with chid := true,chooseId := x.fTeid.chooseId } else c) := by
        split
        · exact h.keep p fun _ => rfl
        · exact h
      split
      · next hchoose => exact hchid.modify p (chooseFTeid_length hchoose)
      · trivial
  · exact h

theorem Fits.objectTeidHashSet (h : c.Fits) (env : Env) (type : ObjType) (p : Nat) :
    (Pfcp.objectTeidHashSet env type c p).Returns fun c' _ => c'.Fits := by
  apply (h.pdrChooseFTeid env p).bind
  intro c' _ hc'
  have hunset : (pdrUnsetTeid c' p).Fits := by
    apply hc'.congr
    unfold pdrUnsetTeid
    split <;> rfl
  have hkey:=hunset.keep p (f := fun x => { x with hashKey := x.fTeid.teid,hashLen := 4 })
    fun _ => rfl
  exact hkey.congr rfl

theorem Fits.createPdrPdi (h : c.Fits) (p : Nat) (pdi : Pdi) :
    (Pfcp.createPdrPdi c p pdi).Returns fun c' _ => c'.Fits := by
  have hreset : (c.modify p (resetByPdi pdi)).Fits := h.modify p (Nat.zero_le _)
  unfold Pfcp.createPdrPdi
  cases pdi.localFTeid with
  | none => exact hreset
  | some data =>
    dsimp only
    split
    · exact hreset.modify p (Nat.min_le_right _ _)
    · trivial

theorem Fits.createPdrFar (h : c.Fits) (s p : Nat) (farId : Option (BitVec 32)) :
    (Pfcp.createPdrFar c s p farId).Returns fun c' _ => c'.Fits := by
  have hclear:=h.keep p (f := fun x => { x with far := none }) fun _ => rfl
  unfold Pfcp.createPdrFar
  cases farId with
  | none => exact hclear
  | some id =>
    refine Outcome.Returns.bind (R := fun c' _ => c'.Fits) ?_ ?_
    · exact Outcome.Returns.mapState (Outcome.returns_of_forall _ fun _ _ => hclear)
    · intro c' r hc'
      exact hc'.keep p fun _ => rfl

theorem Fits.createPdrQer (h : c.Fits) (s p : Nat) (qerId : Option (BitVec 32)) :
    (Pfcp.createPdrQer c s p qerId).Returns fun c' _ => c'.Fits := by
  have hclear:=h.keep p (f := fun x => { x with qer := none }) fun _ => rfl
  unfold Pfcp.createPdrQer
  cases qerId with
  | none => exact hclear
  | some id =>
    refine Outcome.Returns.bind (R := fun c' _ => c'.Fits) ?_ ?_
    · exact Outcome.Returns.mapState (Outcome.returns_of_forall _ fun _ _ => hclear)
    · intro c' r hc'
      exact hc'.keep p fun _ => rfl

theorem Fits.createPdrUrr (h : c.Fits) (s p : Nat) (ids : List (BitVec 32)) :
    (Pfcp.createPdrUrr s p c ids).Returns fun c' _ => c'.Fits := by
  induction ids generalizing c with
  | nil => exact h
  | cons id ids ih =>
    refine Outcome.Returns.bind (R := fun c' _ => c'.Fits) ?_ ?_
    · exact Outcome.Returns.mapState (Outcome.returns_of_forall _ fun _ _ => h)
    · intro c' r hc'
      refine Outcome.Returns.bind (R := fun c' _ => c'.Fits) ?_ fun c'' _ hc'' => ih hc''
      unfold pdrAssociateUrr
      split
      · split
        · exact hc'
        · exact hc'.keep p fun _ => rfl
      · trivial

theorem Fits.handleCreatePdr (h : c.Fits) (env : Env) (s : Nat) (restoration : Bool)
    (m : Option CreatePdr) :
    (Pfcp.handleCreatePdr env c s restoration m).Returns fun c' _ => c'.Fits := by
  unfold Pfcp.handleCreatePdr
  cases m with
  | none => exact h
  | some m =>
    dsimp only
    cases m.pdrId with
    | none => exact h
    | some id =>
      apply (h.pdrFindOrAdd s id).bind
      intro c' p hc'
      have hplace : Context.Fits (m.precedence.elim c' (pdrReorderByPrecedence c' p)) := by
        cases m.precedence with
        | none => exact hc'
        | some precedence =>
          exact (hc'.keep p (f := fun x => { x with precedence := precedence }) fun _ => rfl).congr
            rfl
      split
      · exact hplace
      · next pdi _ =>
        split
        · apply (hplace.createPdrPdi p pdi).bind
          intro c₁ _ h₁
          apply (h₁.createPdrFar s p m.farId).bind
          intro c₂ _ h₂
          have hurr:=h₂.keep p (f := fun x => { x with urr := [] }) fun _ => rfl
          apply (hurr.createPdrUrr s p m.urrId).bind
          intro c₃ _ h₃
          apply (h₃.createPdrQer s p m.qerId).bind
          intro c₄ _ h₄
          exact h₄
        · trivial

/-- The call overlays the F-TEID of a listed PDR with that of an IE. -/
inductive Overlays (c : Context) : Op → Nat → List Byte → Prop where
  | created {env : Env} {s p : Nat} {m : CreatedPdr} {data : List Byte}
      (known : knownPdr c s m.pdrId = .ok p) (ie : m.localFTeid=some data)
      (addr : fTeidHasAddr env data=true)
      (kept : (((c.pdr p).fTeid.copy data).ipv4 || ((c.pdr p).fTeid.copy data).ipv6)=true) :
      Overlays c (.handleCreatedPdr env s (some m)) p data
  | update {env : Env} {s p : Nat} {m : UpdatePdr} {pdi : Pdi} {data : List Byte}
      (known : knownPdr c s m.pdrId = .ok p) (pdi_eq : m.pdi=some pdi)
      (source : pdi.sourceInterface.isSome) (ie : pdi.localFTeid=some data)
      (addr : fTeidHasAddr env data=true) (compile : env.flowsCompile=true) :
      Overlays c (.handleUpdatePdr env s (some m)) p data

def OverlayFits (c : Context) (op : Op) : Prop :=
  ∀ p data,c.Overlays op p data → data.length ≤ sizeofFTeid

theorem knownPdr_mem {id : Option (BitVec 16)} (h : knownPdr c s id = .ok p) :
    p∈c.pdrList s := by
  unfold knownPdr at h
  split at h
  · cases h
  · split at h
    · cases h
    · next hfind =>
      obtain rfl := Except.ok.inj h
      exact List.mem_of_find?_eq_some hfind

theorem Fits.handleCreatedPdr (h : c.Fits) {env : Env} {m : Option CreatedPdr}
    (hfit : c.OverlayFits (.handleCreatedPdr env s m)) :
    (Pfcp.handleCreatedPdr env c s m).Returns fun c' _ => c'.Fits := by
  cases m with
  | none => exact h
  | some m =>
    simp only [Pfcp.handleCreatedPdr]
    split
    · exact h
    · next p hknown =>
      split
      · exact h
      · next data hdata =>
        split
        · exact h
        · next haddr =>
          split
          · next hkept =>
            have hflags : fTeidHasAddr env data=true := by
              simpa using haddr
            exact h.modify p (hfit p data (.created hknown hdata hflags hkept))
          · trivial

theorem Fits.handleUpdatePdr (h : c.Fits) {env : Env} {m : Option UpdatePdr}
    (hfit : c.OverlayFits (.handleUpdatePdr env s m)) :
    (Pfcp.handleUpdatePdr env c s m).Returns fun c' _ => c'.Fits := by
  cases m with
  | none => exact h
  | some m =>
    simp only [Pfcp.handleUpdatePdr]
    split
    · exact h
    · next p hknown =>
      split
      · exact h
      · next pdi hpdi =>
        split
        · exact h
        · next hsrc =>
          split
          · exact h
          · next haddr =>
            have hface:=h.keep p (f := fun x => { x with
              srcIf := pdi.sourceInterface.getD 0
              srcIfType := pdi.sourceInterfaceType.or x.srcIfType }) fun _ => rfl
            split
            · next hcompile =>
              apply hface.modify p
              cases hdata : pdi.localFTeid with
              | none => exact hface p
              | some data =>
                have hflags : fTeidHasAddr env data=true := by
                  simpa [hdata] using haddr
                have hsome : pdi.sourceInterface.isSome := by
                  rw [Option.isSome_iff_ne_none]
                  simpa using hsrc
                exact hfit p data (.update hknown hpdi hsome hdata hflags hcompile)
            · trivial

theorem Fits.step (h : c.Fits) {op : Op} (hfit : c.OverlayFits op) {o : Outcome Context Reply}
    (ho : c.step op=some o) : o.Returns fun c' _ => c'.Fits := by
  cases op with
  | pdrAdd s =>
    obtain rfl := Option.some.inj ho
    exact (h.pdrAdd s).bind fun _ _ hc' => hc'
  | pdrFindOrAdd s id =>
    obtain rfl := Option.some.inj ho
    exact (h.pdrFindOrAdd s id).bind fun _ _ hc' => hc'
  | pdrRemove s p =>
    simp only [Context.step] at ho
    split at ho
    · obtain rfl := Option.some.inj ho
      exact h.pdrRemove p
    · cases ho
  | pdrSwapTeid s p =>
    simp only [Context.step] at ho
    split at ho
    · obtain rfl := Option.some.inj ho
      exact (h.pdrSwapTeid p).bind fun _ _ hc' => hc'
    · cases ho
  | objectTeidHashSet env type s p =>
    simp only [Context.step] at ho
    split at ho
    · obtain rfl := Option.some.inj ho
      exact (h.objectTeidHashSet env type p).bind fun _ _ hc' => hc'
    · cases ho
  | handleCreatePdr env s restoration m =>
    obtain rfl := Option.some.inj ho
    exact h.handleCreatePdr env s restoration m
  | handleCreatedPdr env s m =>
    obtain rfl := Option.some.inj ho
    exact h.handleCreatedPdr hfit
  | handleUpdatePdr env s m =>
    obtain rfl := Option.some.inj ho
    exact h.handleUpdatePdr hfit
  | handleRemovePdr s m =>
    obtain rfl := Option.some.inj ho
    show (handleRemovePdr c s m).1.Fits
    unfold handleRemovePdr
    split
    · exact h
    · exact h
    · split
      · exact h
      · exact h.pdrRemove _
  | far op =>
    obtain ⟨o,_,rfl⟩ := Option.map_eq_some_iff.mp ho
    exact Outcome.Returns.mapState (Outcome.returns_of_forall _ fun _ _ => h)
  | handleUpdateFarFlags s m =>
    obtain rfl := Option.some.inj ho
    exact Outcome.Returns.mapState (Outcome.returns_of_forall _ fun _ _ => h)
  | urr env op =>
    obtain ⟨o,_,rfl⟩ := Option.map_eq_some_iff.mp ho
    exact Outcome.Returns.mapState (Outcome.returns_of_forall _ fun _ _ => h)
  | qer op =>
    obtain ⟨o,_,rfl⟩ := Option.map_eq_some_iff.mp ho
    exact Outcome.Returns.mapState (Outcome.returns_of_forall _ fun _ _ => h)

theorem lengthened {f : Pdr → Pdr} {data : List Byte} (hp : p∈c.pdrList s)
    (hf : ∀ x,(f x).fTeidLen=data.length) :
    (∃ s,p∈(c.modify p f).pdrList s) ∧ ((c.modify p f).pdr p).fTeidLen=data.length := by
  refine ⟨⟨s,hp⟩,?_⟩
  simpa only [Context.modify,update_self] using hf (c.pdr p)

theorem Overlays.step {op : Op} {data : List Byte} (h : c.Overlays op p data) :
    ∃ c' r,c.step op=some (.ok c' r) ∧ (∃ s,p∈c'.pdrList s) ∧
      (c'.pdr p).fTeidLen=data.length := by
  cases h with
  | @created env s _ m _ known ie addr kept =>
    have hcall : c.step (.handleCreatedPdr env s (some m)) =
        some (.ok (c.modify p (overlayFTeid data)) (.rule p)) := by
      simp only [Context.step,Pfcp.handleCreatedPdr,known,ie,addr,kept,if_true,
        Bool.true_eq_false,if_false]
    exact ⟨_,_,hcall,lengthened (knownPdr_mem known) fun _ => rfl⟩
  | @update env s _ m pdi _ known pdi_eq source ie addr compile =>
    have hsrc : pdi.sourceInterface.isNone=false := by
      rw [← Option.not_isSome,source]
      rfl
    have hany : ((some data).any fun data => !fTeidHasAddr env data)=false := by
      simp [addr]
    have hcall : c.step (.handleUpdatePdr env s (some m)) =
        some (.ok ((c.modify p fun x => { x with
          srcIf := pdi.sourceInterface.getD 0
          srcIfType := pdi.sourceInterfaceType.or x.srcIfType }).modify p fun x =>
            { ((some data).elim id overlayFTeid) x with qfi := pdi.qfi.getD x.qfi })
              (.rule p)) := by
      simp only [Context.step,Pfcp.handleUpdatePdr,known,pdi_eq,hsrc,ie,hany,compile,
        Bool.false_eq_true,if_false,if_true]
    have hp : p∈c.pdrList s := knownPdr_mem known
    exact ⟨_,_,hcall,lengthened (s := s) hp fun _ => rfl⟩

theorem overlayFits_of_step (op : Op) (c' : Context) (r : Reply)
    (ho : c.step op=some (.ok c' r)) (h : c'.CopiesInside) : c.OverlayFits op := by
  intro p data hoverlay
  obtain ⟨c₁,r₁,hcall,⟨s,hp⟩,hlen⟩ := hoverlay.step
  obtain ⟨rfl,-⟩ := Outcome.ok.inj (Option.some.inj (ho.symm.trans hcall))
  rw [← hlen]
  exact h.lengths s p hp

theorem overlayFits_of_stop (op : Op) (hno : ∀ c' r,c.step op≠some (.ok c' r)) :
    c.OverlayFits op := by
  intro p data hoverlay
  obtain ⟨c₁,r₁,hcall,-⟩ := hoverlay.step
  exact absurd hcall (hno c₁ r₁)

end Context

/-- Every copy of an F-TEID stays inside, and every length, in all states of a run if and only if
no Created PDR and no Update PDR overlays an F-TEID that is too long. -/
theorem f_teid_copies_inside (poolSess : Nat) (random : Nat → Nat) (seed : BitVec 32)
    (ops : List Op) :
    (∀ c∈completed Context.step (contextInit poolSess random seed) ops,c.CopiesInside) ↔
      EachStep Context.step Context.OverlayFits (contextInit poolSess random seed) ops := by
  constructor
  · exact eachStep_of_completed (fun c op c' r => Context.overlayFits_of_step op c' r)
      fun c op => Context.overlayFits_of_stop op
  · intro hfit c hc
    have hstep : ∀ (c : Context) op c' r,c.Fits → c.OverlayFits op →
        c.step op=some (.ok c' r) → c'.Fits := by
      intro c op c' r h hop ho
      exact h.step hop ho
    have hinit : (contextInit poolSess random seed).Fits := fun p => Nat.zero_le _
    have hfits : c.Fits := completed_inv hstep hinit hfit c hc
    have hlive : c.FTeidsFit := fun s p _ => hfits p
    exact hlive.copiesInside

def longUpdate : List Op :=
  [.handleCreatePdr env0 0 false (some ⟨some 1,none,
      some ⟨some 0,none,some [1,0,0,0,1,127,0,0,1],none⟩,none,[],none⟩),
    .handleUpdatePdr env0 0 (some ⟨some 1,
      some ⟨some 0,none,some (1::List.replicate 25 0),none⟩⟩)]

theorem f_teid_copies_outside :
    ¬ ∀ c∈completed Context.step (contextInit 1 id 0) longUpdate,c.CopiesInside := by
  intro h
  have hlong : ∃ c ∈ completed Context.step (contextInit 1 id 0) longUpdate,
      0∈c.pdrList 0 ∧ (c.pdr 0).fTeidLen=26 := by
    decide
  obtain ⟨c,hc,hp,hlen⟩ := hlong
  have hle:=(h c hc).lengths 0 0 hp
  rw [hlen] at hle
  exact absurd hle (by decide)

end OgsDp.Pfcp
