import Mathlib.Data.List.Find
import QueryStubs.Command.Request

/-!
# Command lines that two commands read alike

A command reads its arguments by the options it takes. Where a command line names none of the options that only one of two commands takes,
both read the same from it (`readLine_filter`), and they are asked for the same (`Request.parse_shared`): the same input, the same
choices about stubs, and both are strict or neither.
-/

namespace QueryStubs.Command

/-- One step after another succeeds if both do. -/
theorem bind_eq_ok_iff {ε α β : Type} {x : Except ε α} {k : α → Except ε β} {b : β} :
    (x >>= k) = .ok b ↔ ∃ a, x = .ok a ∧ k a = .ok b := by
  cases x with
  | error e => simp [bind, Except.bind]
  | ok a => simp [bind, Except.bind]

section

variable {κ : Type} {specs : List (OptionSpec κ)} {p : OptionSpec κ → Bool} {behind behind' : Option (OptionSpec κ) → Line κ}

/-! ## Reading by some of the options -/

/-- The fault that a line ends with, if it does. -/
def Line.fault? : Line κ → Option UsageFault
  | done => none
  | fault f => some f
  | more _ rest => rest.fault?

/-- A line is refused for the fault that it ends with. -/
theorem Line.all_eq_error_iff {l : Line κ} {f : UsageFault} : l.all = .error f ↔ l.fault? = some f := by
  induction l with
  | done => exact ⟨nofun, nofun⟩
  | fault g => simp [all, fault?]
  | more g rest ih =>
    rw [fault?, ← ih, all]
    cases rest.all with
    | error e => exact Iff.rfl
    | ok given => exact ⟨nofun, nofun⟩

/-- The ways an option is named on a command line. -/
def OptionSpec.names (o : OptionSpec κ) : List String := o.shown :: (o.letter.map fun c => String.ofList ['-', c]).toList

/-- No option that is dropped shares a name with one that is kept. -/
def Apart (specs : List (OptionSpec κ)) (p : OptionSpec κ → Bool) : Prop :=
  ∀ o ∈ specs, p o = false → ∀ k ∈ specs, p k = true → o.long ≠ k.long ∧ (o.letter = none ∨ o.letter ≠ k.letter)

/-- A line is not refused for an option that is dropped. -/
def Kept (specs : List (OptionSpec κ)) (p : OptionSpec κ → Bool) (l : Line κ) : Prop :=
  ∀ name, l.fault? = some (.unknownOption name) → ∀ o ∈ specs, p o = false → name ∉ o.names

/-- What is looked for is found among the options that are kept, if no option that is dropped would be found. -/
theorem find?_filter_of_kept {q : OptionSpec κ → Bool} (h : ∀ o ∈ specs, p o = false → q o = false) :
    (specs.filter p).find? q = specs.find? q := by
  rw [List.find?_filter]
  refine List.find?_congr fun o ho => ?_
  cases hp : p o with
  | true => simp
  | false => simp [h o ho hp]

/-- Among all options a long name stands for the same as among those that are kept, if it is not that of a dropped one. -/
theorem readLong_filter (ha : Apart specs p) (hb : ∀ w, Kept specs p (behind' w) → behind w = behind' w) {body : List Char}
    (h : Kept specs p (readLong (specs.filter p) behind' body)) :
    readLong specs behind body = readLong (specs.filter p) behind' body := by
  have hfind : (specs.filter p).find? (·.long = String.ofList (body.takeWhile (· ≠ '='))) =
      specs.find? (·.long = String.ofList (body.takeWhile (· ≠ '='))) := by
    refine find?_filter_of_kept fun o ho hp => decide_eq_false fun hlong => ?_
    cases hf : (specs.filter p).find? (·.long = String.ofList (body.takeWhile (· ≠ '='))) with
    | none =>
      refine h ("--" ++ String.ofList (body.takeWhile (· ≠ '='))) (by simp only [readLong, hf, Line.fault?]) o ho hp ?_
      rw [← hlong]
      exact List.mem_cons_self
    | some k =>
      obtain ⟨hk, hpk⟩ := List.mem_filter.mp (List.mem_of_find?_eq_some hf)
      have hlong' : k.long = String.ofList (body.takeWhile (· ≠ '=')) := by simpa using List.find?_some hf
      exact (ha o ho hp k hk hpk).1 (hlong.trans hlong'.symm)
  unfold readLong at h ⊢
  simp only [hfind] at h ⊢
  cases hs : specs.find? (·.long = String.ofList (body.takeWhile (· ≠ '='))) with
  | none => rfl
  | some o =>
    simp only [hs] at h ⊢
    split at h
    · rw [hb none h]
    · exact hb (some o) h
    · rfl
    · rw [hb none h]

/-- So does each letter of a row. -/
theorem readLetters_filter (ha : Apart specs p) (hb : ∀ w, Kept specs p (behind' w) → behind w = behind' w) {row : List Char}
    (h : Kept specs p (readLetters (specs.filter p) behind' row)) :
    readLetters specs behind row = readLetters (specs.filter p) behind' row := by
  induction row with
  | nil => exact hb none h
  | cons c row ih =>
    have hfind : (specs.filter p).find? (·.letter = some c) = specs.find? (·.letter = some c) := by
      refine find?_filter_of_kept fun o ho hp => decide_eq_false fun hletter => ?_
      cases hf : (specs.filter p).find? (·.letter = some c) with
      | none =>
        refine h (String.ofList ['-', c]) (by simp only [readLetters, hf, Line.fault?]) o ho hp ?_
        simp [OptionSpec.names, hletter]
      | some k =>
        obtain ⟨hk, hpk⟩ := List.mem_filter.mp (List.mem_of_find?_eq_some hf)
        have hletter' : k.letter = some c := by simpa using List.find?_some hf
        rcases (ha o ho hp k hk hpk).2 with hnone | hne
        · exact nomatch hnone.symm.trans hletter
        · exact hne (hletter.trans hletter'.symm)
    simp only [readLetters, hfind] at h ⊢
    cases hs : specs.find? (·.letter = some c) with
    | none => rfl
    | some o =>
      simp only [hs] at h ⊢
      by_cases hv : o.takes.isSome = true
      · simp only [hv, if_true] at h ⊢
        split at h
        · exact hb (some o) h
        · rw [hb none h]
        · rw [hb none h]
      · simp only [hv, Bool.false_eq_true, if_false] at h ⊢
        rw [ih h]

/-- So does an argument. -/
theorem readArgument_filter (ha : Apart specs p) (hb : ∀ w, Kept specs p (behind' w) → behind w = behind' w) {arg : String}
    (h : Kept specs p (readArgument (specs.filter p) behind' arg)) :
    readArgument specs behind arg = readArgument (specs.filter p) behind' arg := by
  unfold readArgument at h ⊢
  split at h
  · exact readLong_filter ha hb h
  · exact readLetters_filter ha hb h
  · rw [hb none h]

/-- By all of the options the same is read as by those that are kept, unless an option that is dropped is named. -/
theorem readLine_filter (ha : Apart specs p) {args : List String} (h : Kept specs p (readLine (specs.filter p) args)) :
    readLine specs args = readLine (specs.filter p) args := by
  unfold readLine at h ⊢
  generalize none = waiting at h ⊢
  induction args generalizing waiting with
  | nil => cases waiting <;> rfl
  | cons arg args ih =>
    cases waiting with
    | some o =>
      simp only [readFrom] at h ⊢
      split
      · rfl
      · next hv =>
        rw [if_neg hv] at h
        rw [ih none h]
    | none =>
      simp only [readFrom] at h ⊢
      split
      · rfl
      · next hdashes =>
        rw [if_neg hdashes] at h
        exact readArgument_filter ha (fun w hw => ih w hw) h

/-! ## What is given -/

/-- What a line gives. -/
def Line.given : Line κ → List (Given κ)
  | done | fault _ => []
  | more g rest => g :: rest.given

/-- Only options of the list are given on a line. -/
def Line.Of (specs : List (OptionSpec κ)) (l : Line κ) : Prop := ∀ g ∈ l.given, ∀ key, g.key? = some key → ∃ o ∈ specs, o.key = key

theorem Line.Of.fault (f : UsageFault) : (Line.fault f : Line κ).Of specs := List.forall_mem_nil _

theorem Line.Of.more {g : Given κ} {rest : Line κ} (hg : ∀ key, g.key? = some key → ∃ o ∈ specs, o.key = key) (h : rest.Of specs) :
    (Line.more g rest).Of specs :=
  List.forall_mem_cons.mpr ⟨hg, h⟩

/-- A line that gives an option of the list before the rest does. -/
theorem Line.Of.option {o : OptionSpec κ} {g : Given κ} {rest : Line κ} (ho : o ∈ specs) (hg : g.key? = some o.key) (h : rest.Of specs) :
    (Line.more g rest).Of specs :=
  .more (fun _ hk => ⟨o, ho, Option.some.inj (hg.symm.trans hk)⟩) h

/-- So does one that gives an operand. -/
theorem Line.Of.operand {text : String} {rest : Line κ} (h : rest.Of specs) : (Line.more (.operand text) rest).Of specs :=
  .more (fun _ hk => nomatch hk) h

/-- A line of operands gives no options. -/
theorem Line.Of.operands (texts : List String) : (Line.ofList (texts.map .operand) : Line κ).Of specs := by
  induction texts with
  | nil => exact List.forall_mem_nil _
  | cons text texts ih => exact ih.operand

section

variable (hb : ∀ w, (∀ o, w = some o → o ∈ specs) → (behind w).Of specs)

include hb

theorem readLong_of (body : List Char) : (readLong specs behind body).Of specs := by
  unfold readLong
  dsimp only
  split
  · exact .fault _
  · next hs =>
    have ho := List.mem_of_find?_eq_some hs
    split
    · exact .option ho rfl (hb none nofun)
    · exact hb _ fun _ h => Option.some.inj h ▸ ho
    · exact .fault _
    · exact .option ho rfl (hb none nofun)

theorem readLetters_of (row : List Char) : (readLetters specs behind row).Of specs := by
  induction row with
  | nil => exact hb none nofun
  | cons c row ih =>
    rw [readLetters]
    split
    · exact .fault _
    · next hs =>
      have ho := List.mem_of_find?_eq_some hs
      split
      · split
        · exact hb _ fun _ h => Option.some.inj h ▸ ho
        · exact .option ho rfl (hb none nofun)
        · exact .option ho rfl (hb none nofun)
      · exact .option ho rfl ih

theorem readArgument_of (arg : String) : (readArgument specs behind arg).Of specs := by
  unfold readArgument
  split
  · exact readLong_of hb _
  · exact readLetters_of hb _
  · exact (hb none nofun).operand

end

/-- Only options of the list are given by the arguments of a command line. -/
theorem readLine_of (args : List String) : (readLine specs args).Of specs := by
  have hnone : ∀ o : OptionSpec κ, none = some o → o ∈ specs := by
    intro o ho
    cases ho
  have hall : ∀ waiting : Option (OptionSpec κ), (∀ o, waiting = some o → o ∈ specs) → (readFrom specs waiting args).Of specs := by
    induction args with
    | nil =>
      intro waiting _
      cases waiting <;> exact List.forall_mem_nil _
    | cons arg args ih =>
      intro waiting ho
      cases waiting with
      | some o =>
        rw [readFrom]
        split
        · exact .fault _
        · exact .option (ho o rfl) rfl (ih none hnone)
      | none =>
        rw [readFrom]
        split
        · exact .operands args
        · exact readArgument_of ih arg
  exact hall none hnone

end

/-- What is collected from a line that asks for no help is what it gives. -/
theorem Line.given_of_collect {l : Line OptionKey} {before given : List (Given OptionKey)} (h : l.collect before = .ok (some given)) :
    given = before ++ l.given := by
  induction l generalizing before with
  | done =>
    cases h
    exact (List.append_nil _).symm
  | fault f => cases h
  | more g rest ih =>
    rw [collect] at h
    split at h
    · cases h
    · obtain ⟨-, -, h⟩ := bind_eq_ok_iff.mp h
      rw [ih h, Line.given, List.append_assoc, List.singleton_append]

/-! ## Stubs and checks -/

/-- The options that stubs are asked for with and checks are too. -/
def sharedKeys : List OptionKey := CommandName.gen.keys.filter fun k => CommandName.check.keys.contains k

/-- A command line names no option that only one of the two commands takes. -/
def Shared (args : List String) : Prop :=
  ∀ name, readArguments (sharedKeys.map OptionKey.spec) args = .error (.unknownOption name) → name ∉ ["-o", "--output", "--syntax-only"]

/-- Whether an option is taken by both commands. -/
def isShared (o : OptionSpec OptionKey) : Bool := sharedKeys.contains o.key

/-- A command that takes the shared options, and besides none but those that a shared command line does not name, reads the same as by the
shared options alone. -/
theorem readLine_shared {specs : List (OptionSpec OptionKey)} {args : List String} (h : Shared args)
    (hspecs : sharedKeys.map OptionKey.spec = specs.filter isShared) (hapart : Apart specs isShared)
    (hnames : ∀ o ∈ specs, isShared o = false → ∀ name ∈ o.names, name ∈ ["-o", "--output", "--syntax-only"]) :
    readLine specs args = readLine (sharedKeys.map OptionKey.spec) args := by
  unfold Shared at h
  rw [hspecs] at h ⊢
  exact readLine_filter hapart fun name hf o ho hp hn => h name (Line.all_eq_error_iff.mpr hf) (hnames o ho hp name hn)

/-- Of a command line that names no other options both commands read the same. -/
theorem readLine_gen_check {args : List String} (h : Shared args) :
    readLine CommandName.gen.specs args = readLine (sharedKeys.map OptionKey.spec) args ∧
      readLine CommandName.check.specs args = readLine (sharedKeys.map OptionKey.spec) args :=
  ⟨readLine_shared h rfl (by unfold Apart; decide) (by decide), readLine_shared h rfl (by unfold Apart; decide) (by decide)⟩

/-- What is known of an option is filed under its key. -/
@[simp] theorem OptionKey.key_spec (k : OptionKey) : k.spec.key = k := by cases k <;> rfl

/-- An option that is not shared is not given where only shared ones are. -/
theorem not_given {given : List (Given OptionKey)} {key : OptionKey} (h : ∀ g ∈ given, ∀ k, g.key? = some k → k ∈ sharedKeys)
    (hkey : key ∉ sharedKeys) : ∀ g ∈ given, g.key? ≠ some key :=
  fun g hg hk => hkey (h g hg key hk)

/-- What is not given has no value. -/
theorem valueOf?_of_not_given {given : List (Given OptionKey)} {key : OptionKey} (h : ∀ g ∈ given, g.key? ≠ some key) :
    valueOf? given key = none := by
  refine List.findSome?_eq_none_iff.mpr fun g hg => ?_
  cases g with
  | operand | flag => rfl
  | value k text => exact if_neg fun hk => h _ hg (congrArg some hk)

/-- Of a command line that names shared options only, both commands are asked for the same, or it asks for help, or both refuse it for the
same fault. -/
theorem Request.parse_shared {args : List String} (h : Shared args) :
    (∃ c o strict, parse ("gen" :: args) = .ok (.gen c o strict none) ∧ parse ("check" :: args) = .ok (.check c o strict false)) ∨
      (parse ("gen" :: args) = .ok .help ∧ parse ("check" :: args) = .ok .help) ∨
        ∃ f, parse ("gen" :: args) = .error f ∧ parse ("check" :: args) = .error f := by
  obtain ⟨hgen, hcheck⟩ := readLine_gen_check h
  have hgenLabel : CommandName.ofLabel? "gen" = some .gen := rfl
  have hcheckLabel : CommandName.ofLabel? "check" = some .check := rfl
  simp only [parse, hgenLabel, hcheckLabel, CommandName.read, hgen, hcheck]
  cases hcollect : (readLine (sharedKeys.map OptionKey.spec) args).collect [] with
  | error f => exact .inr (.inr ⟨f, rfl, rfl⟩)
  | ok asked =>
    cases asked with
    | none => exact .inr (.inl ⟨rfl, rfl⟩)
    | some given =>
      have hkeys : ∀ g ∈ given, ∀ k, g.key? = some k → k ∈ sharedKeys := by
        intro g hg k hk
        rw [Line.given_of_collect hcollect] at hg
        obtain ⟨o, ho, rfl⟩ := readLine_of args g hg k hk
        obtain ⟨k, hshared, rfl⟩ := List.mem_map.mp ho
        exact k.key_spec.symm ▸ hshared
      have houtput : valueOf? given .output = none := valueOf?_of_not_given (not_given hkeys (by decide))
      have hsyntax : isGiven given .syntaxOnly = false :=
        List.any_eq_false.mpr fun g hg => by simpa using not_given hkeys (by decide) g hg
      simp only [bind, Except.bind]
      cases refuseConflicts given with
      | error f => exact .inr (.inr ⟨f, rfl, rfl⟩)
      | ok => exact .inl ⟨readCommon given, readStubOptions given, isGiven given .strict, by simp [CommandName.request, houtput, pure, Except.pure],
          by simp [CommandName.request, hsyntax, pure, Except.pure]⟩

/-- A command line whose first word asks for stubs asks for stubs or for help. -/
theorem Request.parse_gen {args : List String} {r : Request} (h : parse ("gen" :: args) = .ok r) :
    r = .help ∨ ∃ c o strict output, r = .gen c o strict output := by
  have hlabel : CommandName.ofLabel? "gen" = some .gen := rfl
  simp only [parse, hlabel, CommandName.read] at h
  obtain ⟨asked, -, h⟩ := bind_eq_ok_iff.mp h
  cases asked with
  | none =>
    cases h
    exact .inl rfl
  | some given =>
    obtain ⟨-, -, h⟩ := bind_eq_ok_iff.mp h
    cases h
    exact .inr ⟨_, _, _, _, rfl⟩

end QueryStubs.Command
