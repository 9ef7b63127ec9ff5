import Mathlib.Algebra.BigOperators.Group.List.Basic
import Mathlib.Algebra.GroupWithZero.Nat

/-!
# Reports as differences of snapshots

A total grows with each entry, and a report is the difference between the total and the total as
it was at the last report. Each report measures the entries since the one before it, so every
entry is in one report at most, and what no report has yet is the difference that is left.
-/

namespace OgsDp.Lib
open List

universe u v

section Snapshot

variable {α : Type u} {G : Type v} [AddCommGroup G] {w : α → G} {entries : List α}
  {reports : List G} {total last : G}

/-- The entries fall into one segment for each report and those since the last one. -/
def Tallied (w : α → G) (entries : List α) (reports : List G) (total last : G) : Prop :=
  ∃ (segments : List (List α)) (rest : List α),entries=segments.flatten++rest ∧
    reports=segments.map (fun l => (l.map w).sum) ∧
    last=(segments.flatten.map w).sum ∧ total=last+(rest.map w).sum

theorem tallied_nil (w : α → G) : Tallied w [] [] 0 0 :=
  ⟨[],[],rfl,rfl,rfl,by simp⟩

theorem Tallied.entry (h : Tallied w entries reports total last) (a : α) :
    Tallied w (entries++[a]) reports (total+w a) last := by
  obtain ⟨segments,rest,hentries,hreports,hlast,htotal⟩ := h
  refine ⟨segments,rest++[a],?_,hreports,hlast,?_⟩
  · rw [hentries,append_assoc]
  · rw [htotal,map_append,sum_append,map_singleton,sum_singleton,
      add_assoc]

theorem Tallied.report (h : Tallied w entries reports total last) :
    Tallied w entries (reports++[total-last]) total total := by
  obtain ⟨segments,rest,hentries,hreports,hlast,htotal⟩ := h
  refine ⟨segments++[rest],[],?_,?_,?_,?_⟩
  · rw [hentries,flatten_append,flatten_singleton,append_nil]
  · rw [hreports,htotal,add_sub_cancel_left,map_append,map_singleton]
  · rw [htotal,hlast,flatten_append,flatten_singleton,map_append,
      sum_append]
  · simp

theorem sum_flatten (w : α → G) (segments : List (List α)) :
    (segments.map fun l => (l.map w).sum).sum=(segments.flatten.map w).sum := by
  induction segments with
  | nil => rfl
  | cons l segments ih =>
    rw [map_cons,sum_cons,ih,flatten_cons,map_append,sum_append]

theorem Tallied.total_eq (h : Tallied w entries reports total last) :
    total=(entries.map w).sum := by
  obtain ⟨segments,rest,hentries,-,hlast,htotal⟩ := h
  rw [htotal,hlast,hentries,map_append,sum_append]

theorem Tallied.sum_reports (h : Tallied w entries reports total last) :
    reports.sum+(total-last)=(entries.map w).sum := by
  have htotal:=h.total_eq
  obtain ⟨segments,rest,-,hreports,hlast,-⟩ := h
  rw [hreports,sum_flatten,← hlast,← htotal,add_sub_cancel]

theorem Tallied.map {H : Type*} [AddCommGroup H] (h : Tallied w entries reports total last)
    (f : G →+ H) :
    Tallied (fun a => f (w a)) entries (reports.map f) (f total) (f last) := by
  obtain ⟨segments,rest,hentries,hreports,hlast,htotal⟩ := h
  have hsum : ∀ l : List α, f (l.map w).sum=(l.map fun a => f (w a)).sum := by
    intro l
    rw [map_list_sum,List.map_map]
    rfl
  refine ⟨segments,rest,hentries,?_,?_,?_⟩
  · rw [hreports,List.map_map]
    exact map_congr_left fun l _ => hsum l
  · rw [hlast,hsum]
  · rw [htotal,map_add,hsum]

/-! ### Totals that are numbers below a bound -/

variable {val : G → ℕ} {bound : ℕ}

theorem val_sum (hzero : val 0=0)
    (hadd : ∀ a b,val a+val b<bound → val (a+b)=val a+val b) {l : List G}
    (h : (l.map val).sum<bound) : val l.sum=(l.map val).sum := by
  induction l with
  | nil => exact hzero
  | cons a l ih =>
    rw [map_cons,sum_cons] at h
    have hrest:=ih (by omega)
    rw [sum_cons,map_cons,sum_cons,hadd a l.sum (by omega),hrest]

variable (val bound) in
theorem Tallied.val_reports (h : Tallied w entries reports total last) (hzero : val 0=0)
    (hadd : ∀ a b,val a+val b<bound → val (a+b)=val a+val b)
    (hbound : (entries.map fun a => val (w a)).sum<bound) :
    (reports.map val).sum+val (total-last)=(entries.map fun a => val (w a)).sum := by
  obtain ⟨segments,rest,rfl,rfl,rfl,rfl⟩ := h
  rw [add_sub_cancel_left]
  rw [map_append,sum_append] at hbound ⊢
  have hseg : ∀ l : List α, (l.map fun a => val (w a)).sum<bound →
      val (l.map w).sum=(l.map fun a => val (w a)).sum := by
    intro l hl
    rw [val_sum hzero hadd,List.map_map]
    · rfl
    · rw [List.map_map]
      exact hl
  rw [hseg rest (by omega),List.map_map]
  congr 1
  have hle : (segments.flatten.map fun a => val (w a)).sum<bound := by omega
  clear hbound
  induction segments with
  | nil => rfl
  | cons l segments ih =>
    rw [flatten_cons,map_append,sum_append] at hle ⊢
    rw [map_cons,sum_cons,ih (by omega)]
    congr 1
    exact hseg l (by omega)

end Snapshot

end OgsDp.Lib
