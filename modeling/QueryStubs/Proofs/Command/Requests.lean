import Mathlib.Data.List.Pairwise
import QueryStubs.Proofs.Command.Lines

/-!
# What a command accepts, and what it is asked for

The things on a command line are taken one after another, each looked at in the light of those before it. What is accepted does not depend on
the order, though, and can be said of the things as a whole (`Taken`, `Proper`). So a command accepts the command lines that spell proper
things, and no others, and what it is asked for is the request of those things (`CommandName.read_eq_ok_iff`). What an option is set to is the
one value that is given for it (`Taken.valueOf?_eq_some_iff`).
-/

namespace QueryStubs.Command

/-- An option is given. -/
def Gives (given : List (Given OptionKey)) (key : OptionKey) : Prop := ∃ g ∈ given, g.key? = some key

instance (given : List (Given OptionKey)) (key : OptionKey) : Decidable (Gives given key) :=
  inferInstanceAs (Decidable (∃ g ∈ given, g.key? = some key))

/-- What is given is a path, or a flag, but not the one that asks for help, or a value that its option takes. -/
def Given.Fits : Given OptionKey → Prop
  | .operand text => text ≠ ""
  | .flag key => key ≠ .help
  | .value key text => key.spec.takes.any (·.admits text) = true

instance : DecidablePred Given.Fits
  | .operand text => inferInstanceAs (Decidable (text ≠ ""))
  | .flag key => inferInstanceAs (Decidable (key ≠ .help))
  | .value key text => inferInstanceAs (Decidable (key.spec.takes.any (·.admits text) = true))

/-- Things that are taken one after another: no option is given twice, unless it is counted, there is one operand at most, and each thing
is fit to be given. -/
structure Taken (given : List (Given OptionKey)) : Prop where
  once : given.Pairwise fun g g' => g.key? = g'.key? → g.key? = none ∨ g.key? = some .verbose
  operand : (operands given).length ≤ 1
  fits : ∀ g ∈ given, g.Fits

/-- Things that can be given together: if the text of the module is given, no operand is, a listing and the structured form are not both asked
for, and trivia only with one of the two. -/
structure Proper (given : List (Given OptionKey)) : Prop extends Taken given where
  input : Gives given .query → operands given = []
  view : Gives given .raw → ¬Gives given .json
  trivia : Gives given .trivia → Gives given .raw ∨ Gives given .json

section

variable {given before : List (Given OptionKey)} {g : Given OptionKey} {key : OptionKey} {text : String}

/-! ## Taking one thing after another -/

theorem isGiven_iff : isGiven given key = true ↔ Gives given key := by
  simp [isGiven, Gives]

theorem mem_operands : text ∈ operands given ↔ .operand text ∈ given := by
  unfold operands
  rw [List.mem_filterMap]
  constructor
  · rintro ⟨g, hg, h⟩
    cases g <;> cases h
    exact hg
  · exact fun h => ⟨_, h, rfl⟩

theorem operands_append (first rest : List (Given OptionKey)) : operands (first ++ rest) = operands first ++ operands rest :=
  List.filterMap_append

/-- The option that is counted is the verbosity. -/
theorem counted_iff : key.spec.counted = true ↔ key = .verbose := by
  cases key <;> decide

/-- What the last of some things has to be like to be taken. -/
theorem taken_append_singleton_iff (h : Taken before) :
    Taken (before ++ [g]) ↔
      (∀ key, Gives before key → g.key? = some key → key = .verbose) ∧ (operands before).length + (operands [g]).length ≤ 1 ∧ g.Fits := by
  constructor
  · intro ht
    refine ⟨fun key ⟨g', hg', hkey'⟩ hkey => ?_, ?_, ht.fits g (List.mem_append_right _ (List.mem_singleton_self g))⟩
    · have := (List.pairwise_append.mp ht.once).2.2 g' hg' g (List.mem_singleton_self g) (hkey'.trans hkey.symm)
      simpa [hkey'] using this
    · simpa [operands_append] using ht.operand
  · rintro ⟨honce, hoperand, hfits⟩
    refine ⟨List.pairwise_append.mpr ⟨h.once, List.pairwise_singleton _ g, fun g' hg' g'' hg'' hkeys => ?_⟩, ?_, ?_⟩
    · obtain rfl := List.mem_singleton.mp hg''
      cases hkey : g'.key? with
      | none => exact .inl rfl
      | some key => exact .inr (congrArg some (honce key ⟨g', hg', hkey⟩ (hkeys ▸ hkey)))
    · simpa [operands_append] using hoperand
    · exact List.forall_mem_append.mpr ⟨h.fits, List.forall_mem_singleton.mpr hfits⟩

/-- An operand is accepted if it is the first one and a path. -/
theorem accept_operand_iff : accept before (.operand text) = .ok () ↔ operands before = [] ∧ text ≠ "" := by
  rw [accept]
  by_cases ho : operands before = []
  · by_cases ht : text = "" <;> simp [ho, ht, ValueKind.admits]
  · simp [ho]

/-- A flag is accepted if it was not given before, unless it is counted. -/
theorem accept_flag_iff : accept before (.flag key) = .ok () ↔ (Gives before key → key = .verbose) := by
  rw [accept, ← isGiven_iff, ← counted_iff]
  by_cases hk : isGiven before key = true <;> by_cases hv : key.spec.counted = true <;> simp [hk, hv]

/-- A value is accepted if its option was not given before and takes it. -/
theorem accept_value_iff : accept before (.value key text) = .ok () ↔ ¬Gives before key ∧ (Given.value key text).Fits := by
  rw [accept, ← isGiven_iff, Given.Fits]
  by_cases hk : isGiven before key = true <;> by_cases ht : key.spec.takes.any (·.admits text) = true <;> simp [hk, ht]

/-- Behind things that are taken one more is accepted just if all are taken then. -/
theorem accept_eq_ok_iff (h : Taken before) : g ≠ .flag .help ∧ accept before g = .ok () ↔ Taken (before ++ [g]) := by
  rw [taken_append_singleton_iff h]
  have hoperand := h.operand
  cases g with
  | operand text =>
    have hone : operands [(.operand text : Given OptionKey)] = [text] := rfl
    rw [accept_operand_iff, hone, List.length_singleton, Nat.add_le_add_iff_right (n := 1) (k := 0), Nat.le_zero, List.length_eq_zero_iff]
    constructor
    · rintro ⟨-, ho, ht⟩
      refine ⟨?_, ho, ht⟩
      intro key _ hkey
      cases hkey
    · rintro ⟨-, ho, ht⟩
      refine ⟨?_, ho, ht⟩
      intro hg
      cases hg
  | flag k =>
    rw [accept_flag_iff]
    constructor
    · rintro ⟨hhelp, honce⟩
      refine ⟨fun key hg hkey => ?_, hoperand, fun hk => hhelp (congrArg _ hk)⟩
      cases hkey
      exact honce hg
    · rintro ⟨honce, -, hfits⟩
      exact ⟨fun hk => hfits (Given.flag.inj hk), fun hg => honce k hg rfl⟩
  | value k text =>
    -- no value is taken for the verbosity, so that it is counted makes no difference
    have hverbose : (Given.value k text).Fits → k ≠ .verbose := by
      rintro ht rfl
      cases ht
    rw [accept_value_iff]
    constructor
    · rintro ⟨-, hk, ht⟩
      refine ⟨fun key hg hkey => ?_, hoperand, ht⟩
      cases hkey
      exact absurd hg hk
    · rintro ⟨honce, -, ht⟩
      refine ⟨?_, fun hg => hverbose ht (honce k hg rfl), ht⟩
      intro hg
      cases hg

/-- What comes first among things that are taken is taken. -/
theorem Taken.of_append {rest : List (Given OptionKey)} (h : Taken (before ++ rest)) : Taken before where
  once := (List.pairwise_append.mp h.once).1
  operand := by
    have := h.operand
    rw [operands_append, List.length_append] at this
    omega
  fits := (List.forall_mem_append.mp h.fits).1

/-- No things are taken. -/
theorem Taken.nil : Taken [] := ⟨.nil, Nat.zero_le 1, List.forall_mem_nil _⟩

/-- A line comes to some things, behind others that were taken, if it gives the rest of them and they are all taken. -/
theorem Line.collect_eq_ok_iff {l : Line OptionKey} (h : Taken before) :
    l.collect before = .ok (some given) ↔ ∃ rest, l = .ofList rest ∧ given = before ++ rest ∧ Taken given := by
  induction l generalizing before with
  | done =>
    constructor
    · intro hc
      cases hc
      exact ⟨[], rfl, (List.append_nil _).symm, h⟩
    · rintro ⟨rest, hrest, rfl, -⟩
      cases rest with
      | nil => rw [List.append_nil]; rfl
      | cons g rest => cases hrest
  | fault f =>
    constructor
    · intro hc
      cases hc
    · rintro ⟨rest, hrest, -⟩
      exact absurd hrest (fault_ne_ofList f rest)
  | more g l ih =>
    have hsplit : (Line.more g l).collect before = .ok (some given) ↔
        (g ≠ .flag .help ∧ accept before g = .ok ()) ∧ l.collect (before ++ [g]) = .ok (some given) := by
      rw [collect]
      by_cases hg : g = .flag .help
      · simp [hg, pure, Except.pure]
      · rw [if_neg hg, bind_eq_ok_iff]
        constructor
        · rintro ⟨u, ha, hl⟩
          exact ⟨⟨hg, ha⟩, hl⟩
        · rintro ⟨⟨-, ha⟩, hl⟩
          exact ⟨(), ha, hl⟩
    rw [hsplit, accept_eq_ok_iff h]
    constructor
    · rintro ⟨ht, hl⟩
      obtain ⟨rest, rfl, rfl, htaken⟩ := (ih ht).mp hl
      exact ⟨g :: rest, rfl, by simp, htaken⟩
    · rintro ⟨rest, hrest, rfl, htaken⟩
      obtain ⟨rest, rfl, rfl⟩ := more_eq_ofList_iff.mp hrest
      have happend : before ++ g :: rest = before ++ [g] ++ rest := by simp
      have hfirst : Taken (before ++ [g]) := .of_append (happend ▸ htaken)
      exact ⟨hfirst, (ih hfirst).mpr ⟨rest, rfl, happend, htaken⟩⟩

/-- A line asks for help if the flag for it stands behind things that are taken. What is behind the flag is not looked at. -/
theorem Line.collect_help (rest : Line OptionKey) (h : Taken (before ++ given)) :
    Line.collect before (given.foldr .more (.more (.flag .help) rest)) = .ok none := by
  induction given generalizing before with
  | nil => rfl
  | cons g given ih =>
    have happend : before ++ g :: given = before ++ [g] ++ given := by simp
    rw [happend] at h
    have haccept := (accept_eq_ok_iff h.of_append.of_append).mpr h.of_append
    rw [List.foldr_cons, collect, if_neg haccept.1, haccept.2]
    exact ih h

example : Request.parse ["gen", "-vh", "--bogus"] = .ok .help := by rfl

example : Request.parse ["gen", "--strict", "--strict", "-h"] = .error (.repeatedOption "--strict") := by rfl

/-- Nothing is refused of what can be given together, and only of that. -/
theorem refuseConflicts_eq_ok_iff :
    refuseConflicts given = .ok () ↔
      (Gives given .query → operands given = []) ∧ (Gives given .raw → ¬Gives given .json) ∧
        (Gives given .trivia → Gives given .raw ∨ Gives given .json) := by
  simp only [refuseConflicts, ← isGiven_iff]
  by_cases ho : operands given = [] <;> cases isGiven given .query <;> cases isGiven given .raw <;> cases isGiven given .json <;>
    cases isGiven given .trivia <;> simp [ho]

/-- No long name is empty or has an equals sign in it. -/
theorem OptionKey.long_plain (key : OptionKey) : key.spec.long.toList ≠ [] ∧ ∀ c ∈ key.spec.long.toList, c ≠ '=' := by
  cases key <;> simp [OptionKey.spec]

/-- The options of a command are told apart by what they are called. -/
theorem CommandName.specs_distinct (command : CommandName) : Distinct command.specs where
  long := by cases command <;> decide
  letter := by cases command <;> decide
  nonempty := List.forall_mem_map.mpr fun key _ => key.long_plain.1
  equals := List.forall_mem_map.mpr fun key _ => key.long_plain.2
  dash := by cases command <;> decide

/-- A command accepts the arguments that spell proper things, and is asked for what these are the request of. -/
theorem CommandName.read_eq_ok_iff {command : CommandName} {args : List String} {r : Request} :
    command.read args = .ok r ∧ r ≠ .help ↔ ∃ given, Spelled command.specs given args ∧ Proper given ∧ r = command.request given := by
  have hrequest : ∀ given, command.request given ≠ .help := fun given => by cases command <;> nofun
  constructor
  · rintro ⟨h, hhelp⟩
    obtain ⟨asked, hasked, h⟩ := bind_eq_ok_iff.mp h
    cases asked with
    | none =>
      cases h
      exact absurd rfl hhelp
    | some given =>
      obtain ⟨⟨⟩, hconflicts, h⟩ := bind_eq_ok_iff.mp h
      cases h
      obtain ⟨rest, hline, rfl, htaken⟩ := (Line.collect_eq_ok_iff .nil).mp hasked
      obtain ⟨hinput, hview, htrivia⟩ := refuseConflicts_eq_ok_iff.mp hconflicts
      exact ⟨given, (readLine_eq_iff command.specs_distinct).mp hline, ⟨htaken, hinput, hview, htrivia⟩, rfl⟩
  · rintro ⟨given, hspelled, hproper, rfl⟩
    refine ⟨?_, hrequest given⟩
    have hasked : (readLine command.specs args).collect [] = .ok (some given) :=
      (Line.collect_eq_ok_iff .nil).mpr ⟨given, (readLine_eq_iff command.specs_distinct).mpr hspelled, rfl, hproper.toTaken⟩
    have hconflicts : refuseConflicts given = .ok () := refuseConflicts_eq_ok_iff.mpr ⟨hproper.input, hproper.view, hproper.trivia⟩
    exact bind_eq_ok_iff.mpr ⟨_, hasked, bind_eq_ok_iff.mpr ⟨(), hconflicts, rfl⟩⟩

/-! ## What options are set to -/

/-- Of things that are taken no two give the same option, unless it is counted. -/
theorem Taken.unique (h : Taken given) {g g' : Given OptionKey} (hg : g ∈ given) (hg' : g' ∈ given) (hk : g.key? = some key)
    (hk' : g'.key? = some key) (hv : key ≠ .verbose) : g = g' := by
  by_contra hne
  have : Std.Symm fun g g' : Given OptionKey => g.key? = g'.key? → g.key? = none ∨ g.key? = some .verbose :=
    ⟨fun _ _ h hkeys => hkeys ▸ h hkeys.symm⟩
  have hkeys := h.once.forall hg hg' hne (hk.trans hk'.symm)
  simp [hk, hv] at hkeys

/-- The value of an option is the one that is given for it. -/
theorem Taken.valueOf?_eq_some_iff (h : Taken given) : valueOf? given key = some text ↔ .value key text ∈ given := by
  have hmem : ∀ {t}, valueOf? given key = some t → .value key t ∈ given := by
    intro t ht
    obtain ⟨g, hg, hgt⟩ := List.exists_of_findSome?_eq_some ht
    cases g with
    | operand | flag => cases hgt
    | value k t' =>
      obtain ⟨rfl, rfl⟩ : k = key ∧ t' = t := by simpa using hgt
      exact hg
  refine ⟨hmem, fun hg => ?_⟩
  have hv : key ≠ .verbose := by
    rintro rfl
    exact absurd (h.fits _ hg) (by simp [Given.Fits, OptionKey.spec])
  cases ht : valueOf? given key with
  | none => exact absurd (List.findSome?_eq_none_iff.mp ht _ hg) (by simp)
  | some t =>
    have := h.unique (hmem ht) hg rfl rfl hv
    rw [(Given.value.inj this).2]

/-- An option has no value if none is given for it. -/
theorem Taken.valueOf?_eq_none_iff (h : Taken given) : valueOf? given key = none ↔ ∀ text, .value key text ∉ given := by
  rw [Option.eq_none_iff_forall_ne_some]
  exact forall_congr' fun text => not_congr h.valueOf?_eq_some_iff

/-- A flag is given if the option is. -/
theorem Taken.isGiven_flag (h : Taken given) (hkey : key.spec.takes = none) : isGiven given key = true ↔ .flag key ∈ given := by
  rw [isGiven_iff]
  constructor
  · rintro ⟨g, hg, hk⟩
    cases g with
    | operand text => cases hk
    | flag k =>
      cases hk
      exact hg
    | value k text =>
      cases hk
      exact absurd (h.fits _ hg) (by simp [Given.Fits, hkey])
  · exact fun hg => ⟨_, hg, rfl⟩

end

end QueryStubs.Command
