import Mathlib.Data.List.Induction
import Mathlib.Data.List.Nodup
import Mathlib.Data.List.Perm.Basic
import QueryStubs.Stub.Group

/-!
# Which groups there are

There is one group for each prefix that occurs, in the order in which prefixes are first seen, and it holds the functions with that
prefix in source order (`NamespaceGroup.ofFunctions_eq`). So no function is in two groups and none is left out.
-/

namespace QueryStubs

/-! ## Elements in the order in which they are first seen -/

/-- One more element is added at the end unless it has been seen. -/
theorem eraseDups_concat {α : Type} [DecidableEq α] (xs : List α) (x : α) :
    (xs ++ [x]).eraseDups = if x ∈ xs then xs.eraseDups else xs.eraseDups ++ [x] := by
  rw [List.eraseDups_append]
  split
  · rename_i h
    simp [List.removeAll, h]
  · rename_i h
    simp [List.removeAll, h, List.eraseDups_cons]

theorem nodup_eraseDups {α : Type} [DecidableEq α] (xs : List α) : xs.eraseDups.Nodup := by
  induction xs using List.reverseRecOn with
  | nil => exact List.nodup_nil
  | append_singleton xs x ih =>
    rw [eraseDups_concat]
    split
    · exact ih
    · rename_i hnew
      refine List.nodup_append.mpr ⟨ih, List.nodup_singleton _, ?_⟩
      rintro y hy z hz rfl
      rw [List.mem_singleton] at hz
      exact hnew (List.mem_eraseDups.mp (hz ▸ hy))

theorem eraseDups_of_nodup {α : Type} [DecidableEq α] {xs : List α} (h : xs.Nodup) : xs.eraseDups = xs := by
  induction xs using List.reverseRecOn with
  | nil => rfl
  | append_singleton xs x ih =>
    obtain ⟨hxs, -, hx⟩ := List.nodup_append.mp h
    rw [eraseDups_concat, if_neg fun hmem => hx x hmem x List.mem_cons_self rfl, ih hxs]

/-! ## Prefixes -/

namespace FunctionDecl

/-- The prefixes of some functions, each once, in the order in which they are first seen. -/
def prefixes (fs : List FunctionDecl) : List String := (fs.map (·.name.qualifierText)).eraseDups

/-- The functions with a prefix, in order. -/
def withPrefix (fs : List FunctionDecl) (p : String) : List FunctionDecl := fs.filter fun f => f.name.qualifierText = p

theorem mem_prefixes {fs : List FunctionDecl} {p : String} : p ∈ prefixes fs ↔ ∃ f ∈ fs, f.name.qualifierText = p := by
  rw [prefixes, List.mem_eraseDups, List.mem_map]

theorem mem_withPrefix {fs : List FunctionDecl} {p : String} {f : FunctionDecl} :
    f ∈ withPrefix fs p ↔ f ∈ fs ∧ f.name.qualifierText = p := by
  rw [withPrefix, List.mem_filter, decide_eq_true_iff]

theorem prefixes_eq_nil {fs : List FunctionDecl} : prefixes fs = [] ↔ fs = [] := by
  constructor
  · intro h
    rw [List.eq_nil_iff_forall_not_mem] at h ⊢
    intro f hf
    exact h f.name.qualifierText (mem_prefixes.mpr ⟨f, hf, rfl⟩)
  · intro h
    subst h
    rfl

/-- One more function adds its prefix at the end unless the prefix has been seen. -/
theorem prefixes_snoc (fs : List FunctionDecl) (f : FunctionDecl) :
    prefixes (fs ++ [f]) =
      if f.name.qualifierText ∈ prefixes fs then prefixes fs else prefixes fs ++ [f.name.qualifierText] := by
  rw [prefixes, List.map_append, List.map_singleton, eraseDups_concat]
  simp only [prefixes, List.mem_eraseDups]

/-- No prefix is listed twice. -/
theorem nodup_prefixes (fs : List FunctionDecl) : (prefixes fs).Nodup := nodup_eraseDups _

theorem withPrefix_snoc (fs : List FunctionDecl) (f : FunctionDecl) (p : String) :
    withPrefix (fs ++ [f]) p = if f.name.qualifierText = p then withPrefix fs p ++ [f] else withPrefix fs p := by
  rw [withPrefix, List.filter_append]
  split
  · rename_i h
    simp [withPrefix, h]
  · rename_i h
    simp [withPrefix, h]

/-- No function has a prefix that is not listed. -/
theorem withPrefix_of_not_mem {fs : List FunctionDecl} {p : String} (h : p ∉ prefixes fs) : withPrefix fs p = [] := by
  rw [List.eq_nil_iff_forall_not_mem]
  intro f hf
  exact h (mem_prefixes.mpr ⟨f, mem_withPrefix.mp hf⟩)

/-- Taken by prefix, the functions are the same functions in another order. -/
theorem flatMap_withPrefix_perm (fs : List FunctionDecl) : ((prefixes fs).flatMap (withPrefix fs)).Perm fs := by
  rw [List.perm_iff_count]
  intro f
  have hcount : ∀ ps : List String, ps.Nodup → (ps.flatMap (withPrefix fs)).count f =
      if f.name.qualifierText ∈ ps then fs.count f else 0 := by
    intro ps hps
    induction ps with
    | nil => rfl
    | cons p ps ih =>
      obtain ⟨hp, hps⟩ := List.nodup_cons.mp hps
      rw [List.flatMap_cons, List.count_append, ih hps]
      by_cases hf : f.name.qualifierText = p
      · subst hf
        rw [if_neg hp, if_pos List.mem_cons_self, withPrefix, List.count_filter (by simp), Nat.add_zero]
      · have hzero : (withPrefix fs p).count f = 0 := List.count_eq_zero.mpr fun h => hf (mem_withPrefix.mp h).2
        simp only [hzero, Nat.zero_add, List.mem_cons, hf, false_or]
  rw [hcount _ (nodup_prefixes fs)]
  split
  · rfl
  · rename_i h
    exact (List.count_eq_zero.mpr fun hf => h (mem_prefixes.mpr ⟨f, hf, rfl⟩)).symm

end FunctionDecl

/-! ## Groups -/

namespace NamespaceGroup

open FunctionDecl

/-- The group of a prefix. -/
def ofPrefix (fs : List FunctionDecl) (p : String) : NamespaceGroup := ⟨p, withPrefix fs p⟩

/-- A function joins the group of its prefix, or starts one. -/
theorem add_ofPrefix (fs : List FunctionDecl) (f : FunctionDecl) {ps : List String} (hps : ps.Nodup)
    (hnew : f.name.qualifierText ∉ ps → withPrefix fs f.name.qualifierText = []) :
    add f (ps.map (ofPrefix fs)) =
      (if f.name.qualifierText ∈ ps then ps else ps ++ [f.name.qualifierText]).map (ofPrefix (fs ++ [f])) := by
  induction ps with
  | nil =>
    rw [if_neg List.not_mem_nil]
    simp [add, ofPrefix, withPrefix_snoc, hnew]
  | cons p ps ih =>
    obtain ⟨hp, hps⟩ := List.nodup_cons.mp hps
    rw [List.map_cons, add]
    by_cases hf : p = f.name.qualifierText
    · -- the groups behind this one have other prefixes and stay
      have hrest : ps.map (ofPrefix fs) = ps.map (ofPrefix (fs ++ [f])) := by
        refine List.map_congr_left fun q hq => ?_
        have hne : f.name.qualifierText ≠ q := fun h => hp (hf ▸ h ▸ hq)
        rw [ofPrefix, ofPrefix, withPrefix_snoc, if_neg hne]
      rw [if_pos (show (ofPrefix fs p).qualifier = _ from hf), if_pos (hf ▸ List.mem_cons_self), List.map_cons, hrest]
      simp [ofPrefix, withPrefix_snoc, hf]
    · have hhead : ofPrefix fs p = ofPrefix (fs ++ [f]) p := by
        rw [ofPrefix, ofPrefix, withPrefix_snoc, if_neg (Ne.symm hf)]
      have hne : f.name.qualifierText ≠ p := Ne.symm hf
      have hih := ih hps fun h => hnew (by simp [hne, h])
      rw [if_neg (show ¬ (ofPrefix fs p).qualifier = _ from hf), hih, hhead, ← List.map_cons (f := ofPrefix (fs ++ [f]))]
      by_cases hmem : f.name.qualifierText ∈ ps
      · rw [if_pos hmem, if_pos (List.mem_cons_of_mem _ hmem)]
      · rw [if_neg hmem, if_neg (by simp [hne, hmem]), List.cons_append]

/-- There is one group for each prefix, with the functions of that prefix. -/
theorem ofFunctions_eq (fs : List FunctionDecl) : ofFunctions fs = (prefixes fs).map (ofPrefix fs) := by
  induction fs using List.reverseRecOn with
  | nil => rfl
  | append_singleton fs f ih =>
    have hstep : ofFunctions (fs ++ [f]) = add f (ofFunctions fs) := by
      rw [ofFunctions, List.foldl_append]
      rfl
    rw [hstep, ih, add_ofPrefix fs f (nodup_prefixes fs) withPrefix_of_not_mem, prefixes_snoc]

end NamespaceGroup

end QueryStubs
