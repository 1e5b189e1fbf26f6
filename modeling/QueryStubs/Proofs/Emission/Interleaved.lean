import QueryStubs.Proofs.Emission.Rule

/-!
# Functions of different prefixes between one another

The groups of some functions are their partition by prefix: the prefixes are those that occur, each once and in the order in which they are
first seen, and a group holds the functions with its prefix in source order (`NamespaceGroup.stable_partition`). So how functions of
different prefixes stand between one another decides nothing. Two lists that differ in this only are `FunctionDecl.Interleaved`: they have
the same groups, and, if no function is at fault, the same text or the same container that would be written twice.
-/

namespace QueryStubs

namespace FunctionDecl

/-- The same prefixes, first seen in the same order, and the same functions with each of them. -/
structure Interleaved (fs gs : List FunctionDecl) : Prop where
  prefixes : prefixes fs = prefixes gs
  functions : ∀ p ∈ FunctionDecl.prefixes fs, withPrefix fs p = withPrefix gs p

instance (fs gs : List FunctionDecl) : Decidable (Interleaved fs gs) :=
  decidable_of_iff (prefixes fs = prefixes gs ∧ ∀ p ∈ prefixes fs, withPrefix fs p = withPrefix gs p)
    ⟨fun h => ⟨h.1, h.2⟩, fun h => ⟨h.1, h.2⟩⟩

theorem Interleaved.symm {fs gs : List FunctionDecl} (h : Interleaved fs gs) : Interleaved gs fs :=
  ⟨h.prefixes.symm, fun p hp => (h.functions p (h.prefixes ▸ hp)).symm⟩

theorem Interleaved.subset {fs gs : List FunctionDecl} (h : Interleaved fs gs) : fs ⊆ gs := by
  intro f hf
  have hsame := h.functions f.name.qualifierText (mem_prefixes.mpr ⟨f, hf, rfl⟩)
  exact (mem_withPrefix.mp (hsame ▸ mem_withPrefix.mpr ⟨hf, rfl⟩)).1

/-- A prefix is listed before another if its first function comes first. -/
theorem prefixes_firstSeen (fs : List FunctionDecl) : (prefixes fs).Pairwise fun p q =>
    (fs.map (·.name.qualifierText)).idxOf p < (fs.map (·.name.qualifierText)).idxOf q := by
  induction fs using List.reverseRecOn with
  | nil => exact .nil
  | append_singleton fs f ih =>
    have hseen : ∀ {p}, p ∈ prefixes fs → p ∈ fs.map (·.name.qualifierText) := List.mem_eraseDups.mp
    -- a further function is behind the first one of every prefix that was seen
    have hkeep : (prefixes fs).Pairwise fun p q =>
        ((fs ++ [f]).map (·.name.qualifierText)).idxOf p < ((fs ++ [f]).map (·.name.qualifierText)).idxOf q := by
      refine ih.imp_of_mem fun {p q} hp hq h => ?_
      rwa [List.map_append, List.idxOf_append_of_mem (hseen hp), List.idxOf_append_of_mem (hseen hq)]
    rw [prefixes_snoc]
    split
    · exact hkeep
    · rename_i hnew
      refine List.pairwise_append.mpr ⟨hkeep, List.pairwise_singleton _ _, ?_⟩
      intro p hp q hq
      rw [List.mem_singleton] at hq
      subst hq
      have hlater : f.name.qualifierText ∉ fs.map (·.name.qualifierText) := fun h => hnew (List.mem_eraseDups.mpr h)
      rw [List.map_append, List.idxOf_append_of_mem (hseen hp), List.idxOf_append_of_notMem hlater]
      exact Nat.lt_of_lt_of_le (List.idxOf_lt_length_iff.mpr (hseen hp)) (Nat.le_add_right _ _)

end FunctionDecl

open FunctionDecl

namespace NamespaceGroup

theorem qualifiers_ofFunctions (fs : List FunctionDecl) : (ofFunctions fs).map (·.qualifier) = prefixes fs := by
  rw [ofFunctions_eq, List.map_map]
  exact List.map_id _

/-- A group has a function, and it has all those with its prefix. -/
theorem functions_of_mem {fs : List FunctionDecl} {g : NamespaceGroup} (h : g ∈ ofFunctions fs) :
    g.functions = withPrefix fs g.qualifier ∧ g.functions ≠ [] := by
  rw [ofFunctions_eq] at h
  obtain ⟨p, hp, rfl⟩ := List.mem_map.mp h
  obtain ⟨f, hf, hprefix⟩ := mem_prefixes.mp hp
  exact ⟨rfl, List.ne_nil_of_mem (mem_withPrefix.mpr ⟨hf, hprefix⟩)⟩

theorem ofFunctions_interleaved {fs gs : List FunctionDecl} (h : Interleaved fs gs) : ofFunctions fs = ofFunctions gs := by
  rw [ofFunctions_eq, ofFunctions_eq, ← h.prefixes]
  exact List.map_congr_left fun p hp => congrArg (NamespaceGroup.mk p) (h.functions p hp)

end NamespaceGroup

/-- If no function is at fault, only the groups of functions are looked at. -/
theorem Module.emit_of_groups {c : Config} {m : Module} (h : ∀ f ∈ m.functions, f.faults c = []) :
    m.emit c = (do return String.intercalate "\n" (← containersOf c [] (NamespaceGroup.ofFunctions m.functions))) := by
  have hstubs := Answers.mapM (Stub.ofFunction_answers c) m.functions
  rw [List.flatMap_eq_nil_iff.mpr h] at hstubs
  obtain ⟨stubs, hok, -⟩ := hstubs
  rw [emit, hok]
  rfl

/-- If no function is at fault, nothing but two containers with one name can be. -/
theorem Module.emit_of_faultless {c : Config} {m : Module} (h : ∀ f ∈ m.functions, f.faults c = []) :
    (∃ text, m.emit c = .ok text) ∨ ∃ name, m.emit c = .error (.duplicateContainer name) := by
  have hanswer := m.emit_answers c
  rw [faults, List.flatMap_eq_nil_iff.mpr h, List.nil_append] at hanswer
  cases hnames : repeats (m.containerNames c) with
  | nil =>
    rw [hnames] at hanswer
    obtain ⟨text, htext, -⟩ := hanswer
    exact .inl ⟨text, htext⟩
  | cons name names =>
    rw [hnames] at hanswer
    exact .inr ⟨name, hanswer⟩

/-- The groups of some functions are those of their prefixes, in the order in which these are first seen, each with its functions in order and
with one at least. Functions that stand otherwise between those of other prefixes have the same groups, and if none of them is at fault,
the same text is written for them, or two containers would have the same name. -/
theorem NamespaceGroup.stable_partition (fs : List FunctionDecl) :
    (ofFunctions fs).map (·.qualifier) = prefixes fs ∧ (prefixes fs).Nodup ∧
      (∀ p, p ∈ prefixes fs ↔ ∃ f ∈ fs, f.name.qualifierText = p) ∧
      (prefixes fs).Pairwise (fun p q => (fs.map (·.name.qualifierText)).idxOf p < (fs.map (·.name.qualifierText)).idxOf q) ∧
      (∀ g ∈ ofFunctions fs, g.functions = withPrefix fs g.qualifier ∧ g.functions ≠ []) ∧
      ∀ gs, Interleaved fs gs → ofFunctions fs = ofFunctions gs ∧
        ∀ (c : Config) (m n : Module), m.functions = fs → n.functions = gs → (∀ f ∈ fs, f.faults c = []) →
          m.emit c = n.emit c ∧ ((∃ text, m.emit c = .ok text) ∨ ∃ name, m.emit c = .error (.duplicateContainer name)) := by
  refine ⟨qualifiers_ofFunctions fs, nodup_prefixes fs, fun _ => mem_prefixes, prefixes_firstSeen fs, fun _ => functions_of_mem, ?_⟩
  intro gs h
  have hgroups := ofFunctions_interleaved h
  refine ⟨hgroups, ?_⟩
  rintro c m n rfl rfl hfaults
  have hfaults' : ∀ f ∈ n.functions, f.faults c = [] := fun f hf => hfaults f (h.symm.subset hf)
  refine ⟨?_, Module.emit_of_faultless hfaults⟩
  rw [Module.emit_of_groups hfaults, Module.emit_of_groups hfaults', hgroups]

/-- Functions of `a`, of no prefix and of an empty one, in turns. -/
def FunctionDecl.mingled : List FunctionDecl :=
  [⟨⟨some "a", "f"⟩, [], some ⟨.atomic ⟨some "xs", "string"⟩, .exactlyOne⟩, .external, ⟨0, 45⟩⟩,
    ⟨⟨none, "g"⟩, [], some ⟨.atomic ⟨some "xs", "string"⟩, .optional⟩, .external, ⟨45, 89⟩⟩,
    ⟨⟨some "a", "h"⟩, [], some ⟨.atomic ⟨some "xs", "boolean"⟩, .exactlyOne⟩, .external, ⟨90, 136⟩⟩,
    ⟨⟨some "", "k"⟩, [], some ⟨.atomic ⟨some "xs", "boolean"⟩, .zeroOrMore⟩, .external, ⟨0, 0⟩⟩]

/-- The same functions, those of `a` first. -/
def FunctionDecl.parted : List FunctionDecl := withPrefix mingled "a" ++ withPrefix mingled ""

/-- They are in two groups either way. -/
theorem NamespaceGroup.stable_partition_mingled : Interleaved mingled parted ∧ (∀ f ∈ mingled, f.faults {} = []) ∧
    mingled ≠ parted ∧ (ofFunctions mingled).map (·.qualifier) = ["a", ""] ∧ ofFunctions mingled = ofFunctions parted ∧
      Module.emit {} ⟨none, .main, mingled⟩ = Module.emit {} ⟨none, .main, parted⟩ := by
  have hsame : Interleaved mingled parted := by decide
  have hfaults : ∀ f ∈ mingled, f.faults {} = [] := by decide
  obtain ⟨hprefixes, -, -, -, -, hgroups⟩ := stable_partition mingled
  obtain ⟨heq, hemit⟩ := hgroups parted hsame
  exact ⟨hsame, hfaults, by decide, hprefixes.trans (by decide), heq, (hemit {} _ ⟨none, .main, parted⟩ rfl rfl hfaults).1⟩

end QueryStubs
