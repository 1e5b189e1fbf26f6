import QueryStubs.Proofs.Command.Requests

/-!
# Command lines for requests

Whatever can be asked for can be written. Of every request there is one command line that is read off it, with the options by their long names
and the file behind two dashes, and that command line asks for just that (`Request.parse_words`). Left out are only the paths that no command
line can name: an empty one, and as the file a single dash, which stands for standard input.
-/

namespace QueryStubs.Command

/-! ## What a request says -/

/-- The words for the brackets. -/
def bracketsWord : Brackets → String
  | .angle => "angle"
  | .square => "square"

namespace ColorChoice

/-- The words for when there are colours. -/
def word : ColorChoice → String
  | auto => "auto"
  | always => "always"
  | never => "never"

end ColorChoice

/-- What is said of one command: its verbosity, its flags, the values of its options, and the operand. -/
structure Sayings where
  verbosity : Nat
  flag : OptionKey → Bool
  value : OptionKey → Option String
  operand : Option String

/-- What is said of an option, if it is given. -/
def Sayings.of (s : Sayings) (key : OptionKey) : Option (Given OptionKey) :=
  if key.spec.takes.isSome then (s.value key).map (.value key) else if s.flag key then some (.flag key) else none

/-- The options of a command that are given once. -/
def CommandName.single (command : CommandName) : List OptionKey := command.keys.filter fun k => k ≠ .verbose ∧ k ≠ .help

/-- The options that are given for a command. -/
def Sayings.options (s : Sayings) (command : CommandName) : List (Given OptionKey) :=
  List.replicate s.verbosity (.flag .verbose) ++ command.single.filterMap s.of

/-- All that is given for a command. -/
def Sayings.given (s : Sayings) (command : CommandName) : List (Given OptionKey) := s.options command ++ s.operand.toList.map .operand

/-- The value of the option for the text of the module. -/
def InputChoice.text? : InputChoice → Option String
  | query text => some text
  | _ => none

/-- The operand of a command. -/
def InputChoice.operand? : InputChoice → Option String
  | file path => some path
  | standardInput => some "-"
  | _ => none

/-- What is said of stubs. -/
def StubOptions.value (o : StubOptions) : OptionKey → Option String
  | .typeMap => o.typeMap
  | .brackets => some (bracketsWord o.brackets)
  | .placeholder => o.placeholder
  | .defaultObject => o.defaultObject
  | _ => none

/-- What is said of any command, besides what is said of one alone. -/
def Common.value (c : Common) (other : OptionKey → Option String) : OptionKey → Option String
  | .query => c.input.text?
  | .color => some c.color.word
  | key => other key

/-- The flags for what a module is shown as. -/
def AstView.flag : AstView → OptionKey → Bool
  | .listing _, .raw | .json, .json => true
  | .listing options, .trivia => options.trivia
  | .listing options, .spans => options.spans
  | .outline spans, .spans => spans
  | _, _ => false

/-- What is said when stubs are asked for. -/
def genSayings (c : Common) (o : StubOptions) (strict : Bool) (output : Option String) : Sayings where
  verbosity := c.verbosity
  flag := fun
    | .strict => strict
    | .extended => o.extended
    | _ => false
  value := c.value fun
    | .output => output
    | key => o.value key
  operand := c.input.operand?

/-- What is said when a check is asked for. -/
def checkSayings (c : Common) (o : StubOptions) (strict syntaxOnly : Bool) : Sayings where
  verbosity := c.verbosity
  flag := fun
    | .strict => strict
    | .syntaxOnly => syntaxOnly
    | .extended => o.extended
    | _ => false
  value := c.value o.value
  operand := c.input.operand?

/-- What is said when a module is to be shown. -/
def astSayings (c : Common) (view : AstView) : Sayings where
  verbosity := c.verbosity
  flag := view.flag
  value := c.value fun _ => none
  operand := c.input.operand?

/-- How one option is written. -/
def Given.words : Given OptionKey → List String
  | operand text => [text]
  | flag key => [key.shown]
  | value key text => [key.shown ++ "=" ++ text]

/-- The arguments that say all that is given for a command. -/
def Sayings.words (s : Sayings) (command : CommandName) : List String :=
  (s.options command).flatMap Given.words ++ s.operand.elim [] fun text => ["--", text]

/-- The command line for a request. -/
def Request.words : Request → List String
  | help => ["help"]
  | gen c o strict output => "gen" :: (genSayings c o strict output).words .gen
  | check c o strict syntaxOnly => "check" :: (checkSayings c o strict syntaxOnly).words .check
  | ast c view => "ast" :: (astSayings c view).words .ast

/-! ## What is said is spelled -/

section

variable {s : Sayings} {command : CommandName}

theorem CommandName.single_sub : ∀ key ∈ command.single, key.spec ∈ command.specs :=
  fun _ hkey => List.mem_map_of_mem (List.mem_filter.mp hkey).1

theorem CommandName.single_nodup : command.single.Nodup := by
  cases command <;> decide

theorem CommandName.verbose_mem : OptionKey.verbose.spec ∈ command.specs := by
  cases command <;> decide

/-- What is said of an option is that it is set, or which value it has. -/
theorem Sayings.of_eq_some {key : OptionKey} {g : Given OptionKey} (h : s.of key = some g) :
    (g = .flag key ∧ key.spec.takes.isSome = false) ∨ ∃ text, g = .value key text ∧ key.spec.takes.isSome = true ∧ s.value key = some text := by
  unfold of at h
  split at h
  · next ht =>
    obtain ⟨text, htext, rfl⟩ := Option.map_eq_some_iff.mp h
    exact .inr ⟨text, rfl, ht, htext⟩
  · next ht =>
    split at h
    · cases h
      exact .inl ⟨rfl, Bool.not_eq_true _ ▸ ht⟩
    · cases h

/-- What is said of an option is filed under it. -/
theorem Sayings.key_of {key : OptionKey} {g : Given OptionKey} (h : s.of key = some g) : g.key? = some key := by
  rcases of_eq_some h with ⟨rfl, -⟩ | ⟨text, rfl, -⟩ <;> rfl

/-- What is said of some options is spelled by their words, in front of what else is spelled. -/
theorem Sayings.spelled_of {keys : List OptionKey} (hkeys : ∀ key ∈ keys, key.spec ∈ command.specs) {given : List (Given OptionKey)}
    {args : List String} (h : Spelled command.specs given args) :
    Spelled command.specs (keys.filterMap s.of ++ given) ((keys.filterMap s.of).flatMap Given.words ++ args) := by
  induction keys with
  | nil => exact h
  | cons key keys ih =>
    have hkey := hkeys key List.mem_cons_self
    have ih := ih fun k hk => hkeys k (List.mem_cons_of_mem _ hk)
    cases hg : s.of key with
    | none => rwa [List.filterMap_cons_none hg]
    | some g =>
      rw [List.filterMap_cons_some hg]
      rcases of_eq_some hg with ⟨rfl, ht⟩ | ⟨text, rfl, ht, -⟩
      · have hflag := Spelled.flag hkey ht ih
        rwa [key.key_spec] at hflag
      · have hvalue := Spelled.attached hkey ht text ih
        rwa [key.key_spec] at hvalue

/-- All that is said is spelled by the words for it. -/
theorem Sayings.spelled (s : Sayings) (command : CommandName) : Spelled command.specs (s.given command) (s.words command) := by
  have hoperand : Spelled command.specs (s.operand.toList.map .operand) (s.operand.elim [] fun text => ["--", text]) := by
    cases s.operand with
    | none => exact .done
    | some text => exact .operands [text]
  have hverbose : ∀ n : Nat, ∀ {given args}, Spelled command.specs given args →
      Spelled command.specs (List.replicate n (.flag .verbose) ++ given)
        ((List.replicate n (.flag .verbose : Given OptionKey)).flatMap Given.words ++ args) := by
    intro n given args h
    induction n with
    | zero => exact h
    | succ n ih => exact .flag CommandName.verbose_mem rfl ih
  have := hverbose s.verbosity (s.spelled_of CommandName.single_sub hoperand)
  simpa [given, options, words, List.append_assoc] using this

/-! ## What is said can be given together -/

/-- What is said can be given: every value is one that its option takes, the operand is a path, and nothing is said together that excludes
each other. -/
structure Sayings.Fit (s : Sayings) : Prop where
  value : ∀ key text, s.value key = some text → key.spec.takes.isSome = true → (Given.value key text).Fits
  operand : s.operand ≠ some ""
  input : s.value .query ≠ none → s.operand = none
  view : s.flag .raw = true → s.flag .json = false
  trivia : s.flag .trivia = true → s.flag .raw = true ∨ s.flag .json = true

theorem Sayings.operands_given : operands (s.given command) = s.operand.toList := by
  have hoptions : operands (s.options command) = [] := by
    refine List.filterMap_eq_nil_iff.mpr fun g hg => ?_
    rcases List.mem_append.mp hg with hg | hg
    · rw [List.eq_of_mem_replicate hg]
    · obtain ⟨key, -, hkey⟩ := List.mem_filterMap.mp hg
      rcases of_eq_some hkey with ⟨rfl, -⟩ | ⟨text, rfl, -⟩ <;> rfl
  rw [given, operands_append, hoptions, List.nil_append]
  cases s.operand <;> rfl

/-- An option that is given once is neither counted nor does it ask for help. -/
theorem CommandName.ne_of_mem_single {key : OptionKey} (h : key ∈ command.single) : key ≠ .verbose ∧ key ≠ .help := by
  simpa using (List.mem_filter.mp h).2

/-- What is said of an option is given, and nothing else of it is. -/
theorem Sayings.mem_given {key : OptionKey} {g : Given OptionKey} (hkey : g.key? = some key) (hv : key ≠ .verbose) :
    g ∈ s.given command ↔ key ∈ command.single ∧ s.of key = some g := by
  constructor
  · intro hg
    rcases List.mem_append.mp hg with hg | hg
    · rcases List.mem_append.mp hg with hg | hg
      · rw [List.eq_of_mem_replicate hg] at hkey
        exact absurd (Option.some.inj hkey).symm hv
      · obtain ⟨key', hkey', hof⟩ := List.mem_filterMap.mp hg
        obtain rfl : key' = key := Option.some.inj ((key_of hof).symm.trans hkey)
        exact ⟨hkey', hof⟩
    · obtain ⟨text, -, rfl⟩ := List.mem_map.mp hg
      cases hkey
  · rintro ⟨hmem, hof⟩
    exact List.mem_append_left _ (List.mem_append_right _ (List.mem_filterMap.mpr ⟨key, hmem, hof⟩))

/-- An option is given if something is said of it. -/
theorem Sayings.gives_iff {key : OptionKey} (hv : key ≠ .verbose) :
    Gives (s.given command) key ↔ key ∈ command.single ∧ (s.of key).isSome = true := by
  constructor
  · rintro ⟨g, hg, hkey⟩
    obtain ⟨hmem, hof⟩ := (mem_given hkey hv).mp hg
    exact ⟨hmem, hof ▸ rfl⟩
  · rintro ⟨hmem, hof⟩
    obtain ⟨g, hg⟩ := Option.isSome_iff_exists.mp hof
    exact ⟨g, (mem_given (key_of hg) hv).mpr ⟨hmem, hg⟩, key_of hg⟩

/-- A flag is given if it is said to be set. -/
theorem Sayings.gives_flag_iff {key : OptionKey} (hv : key ≠ .verbose) (ht : key.spec.takes = none) :
    Gives (s.given command) key ↔ key ∈ command.single ∧ s.flag key = true := by
  rw [gives_iff hv, of, ht]
  cases s.flag key <;> simp

/-- What can be given is taken. -/
theorem Sayings.Fit.taken (h : s.Fit) (command : CommandName) : Taken (s.given command) where
  once := by
    refine List.pairwise_append.mpr ⟨List.pairwise_append.mpr ⟨?_, ?_, ?_⟩, ?_, ?_⟩
    · exact List.pairwise_replicate.mpr (.inr fun _ => .inr rfl)
    · refine List.pairwise_filterMap.mpr (command.single_nodup.imp fun hne g hg g' hg' hkeys => ?_)
      rw [key_of hg, key_of hg'] at hkeys
      exact absurd (Option.some.inj hkeys) hne
    · intro g hg _ _ _
      exact .inr (by rw [List.eq_of_mem_replicate hg]; rfl)
    · exact List.pairwise_map.mpr (List.pairwise_of_forall fun _ _ _ => .inl rfl)
    · intro g _ g' hg' hkeys
      obtain ⟨text, -, rfl⟩ := List.mem_map.mp hg'
      exact .inl hkeys
  operand := by
    rw [operands_given]
    cases s.operand <;> simp
  fits := by
    refine List.forall_mem_append.mpr ⟨List.forall_mem_append.mpr ⟨?_, ?_⟩, ?_⟩
    · intro g hg
      rw [List.eq_of_mem_replicate hg]
      decide
    · intro g hg
      obtain ⟨key, hkey, hof⟩ := List.mem_filterMap.mp hg
      rcases of_eq_some hof with ⟨rfl, -⟩ | ⟨text, rfl, ht, hvalue⟩
      · exact (CommandName.ne_of_mem_single hkey).2
      · exact h.value key text hvalue ht
    · intro g hg
      obtain ⟨text, htext, rfl⟩ := List.mem_map.mp hg
      rintro rfl
      exact h.operand (Option.mem_toList.mp htext)

/-- It can be given together. -/
theorem Sayings.Fit.proper (h : s.Fit) (command : CommandName) : Proper (s.given command) where
  toTaken := h.taken command
  input hquery := by
    obtain ⟨-, hof⟩ := (gives_iff (by decide)).mp hquery
    rw [operands_given, h.input fun hn => by simp [of, hn, OptionKey.spec] at hof, Option.toList_none]
  view hraw hjson := by
    have hr := ((gives_flag_iff (by decide) rfl).mp hraw).2
    have hj := ((gives_flag_iff (by decide) rfl).mp hjson).2
    rw [h.view hr] at hj
    cases hj
  trivia htrivia := by
    obtain ⟨hmem, ht⟩ := (gives_flag_iff (by decide) rfl).mp htrivia
    have hviews : .raw ∈ command.single ∧ .json ∈ command.single := by
      revert hmem
      cases command <;> decide
    exact (h.trivia ht).imp (fun hr => (gives_flag_iff (by decide) rfl).mpr ⟨hviews.1, hr⟩)
      fun hj => (gives_flag_iff (by decide) rfl).mpr ⟨hviews.2, hj⟩

/-! ## What is said is read back -/

/-- The value of an option is the one that is said. -/
theorem Sayings.Fit.valueOf?_given (h : s.Fit) {key : OptionKey} (hkey : key ∈ command.single) (ht : key.spec.takes.isSome = true) :
    valueOf? (s.given command) key = s.value key := by
  refine Option.ext fun text => ?_
  rw [(h.taken command).valueOf?_eq_some_iff, mem_given rfl (CommandName.ne_of_mem_single hkey).1, of, if_pos ht]
  simp [hkey]

/-- A flag is set if it is said to be. -/
theorem Sayings.isGiven_given {key : OptionKey} (hkey : key ∈ command.single) (ht : key.spec.takes = none) :
    isGiven (s.given command) key = s.flag key := by
  rw [Bool.eq_iff_iff, isGiven_iff, gives_flag_iff (CommandName.ne_of_mem_single hkey).1 ht, and_iff_right hkey]

/-- The verbosity is the one that is said. -/
theorem Sayings.occurrences_given : occurrences (s.given command) .verbose = s.verbosity := by
  have hsingle : (command.single.filterMap s.of).filter (·.key? = some .verbose) = [] := by
    refine List.filter_eq_nil_iff.mpr fun g hg => ?_
    obtain ⟨key, hkey, hof⟩ := List.mem_filterMap.mp hg
    simp [key_of hof, (CommandName.ne_of_mem_single hkey).1]
  have hoperand : (s.operand.toList.map .operand).filter (fun g : Given OptionKey => g.key? = some .verbose) = [] := by
    refine List.filter_eq_nil_iff.mpr fun g hg => ?_
    obtain ⟨text, -, rfl⟩ := List.mem_map.mp hg
    simp [Given.key?]
  have hverbose : (List.replicate s.verbosity (.flag .verbose)).filter (fun g : Given OptionKey => g.key? = some .verbose) =
      List.replicate s.verbosity (.flag .verbose) := List.filter_replicate_of_pos (by decide)
  rw [occurrences, given, options, List.filter_append, List.filter_append, hsingle, hoperand, hverbose]
  simp

/-- The words for what can be said are read as what was said. -/
theorem Sayings.Fit.read (h : s.Fit) (command : CommandName) :
    command.read (s.words command) = .ok (command.request (s.given command)) :=
  (CommandName.read_eq_ok_iff.mpr ⟨_, s.spelled command, h.proper command, rfl⟩).1

end

/-! ## Requests -/

/-- A file that can be named as an operand: it has a path, and one that does not stand for standard input. -/
def InputChoice.Sayable : InputChoice → Prop
  | file path => path ≠ "" ∧ path ≠ "-"
  | _ => True

/-- A request whose files can be named. -/
def Request.Sayable : Request → Prop
  | help => True
  | gen c o _ output => c.input.Sayable ∧ o.typeMap ≠ some "" ∧ output ≠ some ""
  | check c o _ _ => c.input.Sayable ∧ o.typeMap ≠ some ""
  | ast c _ => c.input.Sayable

section

variable {c : Common} {o : StubOptions}

/-- What is said of any command can be given. -/
theorem Common.fits {other : OptionKey → Option String} (hother : ∀ key text, other key = some text → (Given.value key text).Fits)
    {key : OptionKey} {text : String} (h : c.value other key = some text) : (Given.value key text).Fits := by
  cases key with
  | query => rfl
  | color =>
    cases h
    cases c.color <;> decide
  | _ => exact hother _ _ h

/-- So can what is said of stubs, if the type map has a path. -/
theorem StubOptions.fits (ho : o.typeMap ≠ some "") {key : OptionKey} {text : String} (h : o.value key = some text) :
    (Given.value key text).Fits := by
  cases key with
  | typeMap =>
    have hne : text ≠ "" := by
      rintro rfl
      exact ho h
    simp [Given.Fits, OptionKey.spec, ValueKind.admits, hne]
  | brackets =>
    cases h
    cases o.brackets <;> decide
  | placeholder | defaultObject => rfl
  | _ => cases h

/-- An operand that is said is a path. -/
theorem InputChoice.Sayable.operand {i : InputChoice} (h : i.Sayable) : i.operand? ≠ some "" := by
  cases i with
  | file path => exact fun hp => h.1 (Option.some.inj hp)
  | _ => simp [operand?]

/-- Where the text of the module is said, no operand is. -/
theorem InputChoice.operand?_of_text {i : InputChoice} (h : i.text? ≠ none) : i.operand? = none := by
  cases i with
  | query text => rfl
  | _ => exact absurd rfl h

/-- What is said when stubs are asked for can be given. -/
theorem genSayings_fit {strict : Bool} {output : Option String} (h : (Request.gen c o strict output).Sayable) :
    (genSayings c o strict output).Fit := by
  obtain ⟨hinput, ho, houtput⟩ := h
  refine ⟨fun key text hvalue _ => Common.fits (fun key text hother => ?_) hvalue, hinput.operand, InputChoice.operand?_of_text, nofun, nofun⟩
  by_cases hkey : key = .output
  · subst hkey
    have hne : text ≠ "" := by
      rintro rfl
      exact houtput hother
    simp [Given.Fits, OptionKey.spec, ValueKind.admits, hne]
  · have hvalue : o.value key = some text := by
      cases key <;> first | exact hother | exact absurd rfl hkey
    exact StubOptions.fits ho hvalue

/-- So can what is said when a check is asked for. -/
theorem checkSayings_fit {strict syntaxOnly : Bool} (h : (Request.check c o strict syntaxOnly).Sayable) :
    (checkSayings c o strict syntaxOnly).Fit :=
  ⟨fun _ _ hvalue _ => Common.fits (fun _ _ hother => StubOptions.fits h.2 hother) hvalue, h.1.operand, InputChoice.operand?_of_text, nofun,
    nofun⟩

/-- So can what is said when a module is to be shown. -/
theorem astSayings_fit {view : AstView} (h : (Request.ast c view).Sayable) : (astSayings c view).Fit where
  value _ _ hvalue _ := Common.fits (fun _ _ hother => absurd hother (Option.some_ne_none _).symm) hvalue
  operand := InputChoice.Sayable.operand h
  input := InputChoice.operand?_of_text
  view hraw := by cases view <;> first | rfl | cases hraw
  trivia htrivia := by cases view <;> first | exact .inl rfl | cases htrivia

/-- What every command is told is what is said. -/
theorem Sayings.Fit.readCommon_eq {s : Sayings} (h : s.Fit) (command : CommandName) (hinput : c.input.Sayable)
    (hquery : s.value .query = c.input.text?) (hcolor : s.value .color = some c.color.word) (hoperand : s.operand = c.input.operand?)
    (hverbose : s.verbosity = c.verbosity) : readCommon (s.given command) = c := by
  have hkeys : .query ∈ command.single ∧ .color ∈ command.single := by cases command <;> decide
  obtain ⟨input, verbosity, color⟩ := c
  have hi : readInput (s.given command) = input := by
    rw [readInput, h.valueOf?_given hkeys.1 rfl, hquery, operands_given, hoperand]
    cases input with
    | file path => exact if_neg hinput.2
    | query | standardInput | unspecified => rfl
  have hc : readColor (s.given command) = color := by
    rw [readColor, h.valueOf?_given hkeys.2 rfl, hcolor]
    cases color <;> rfl
  rw [readCommon, hi, occurrences_given, hverbose, hc]

/-- The choices about stubs are those that are said. -/
theorem Sayings.Fit.readStubOptions_eq {s : Sayings} (h : s.Fit) {command : CommandName} (hkeys : ∀ key ∈ stubKeys, key ∈ command.single)
    (hvalue : ∀ key ∈ [.typeMap, .brackets, .placeholder, .defaultObject], s.value key = o.value key)
    (hextended : s.flag .extended = o.extended) : readStubOptions (s.given command) = o := by
  simp only [stubKeys, List.forall_mem_cons] at hkeys hvalue
  obtain ⟨hmap, hext, hbrackets, hplaceholder, hobject, -⟩ := hkeys
  obtain ⟨vmap, vbrackets, vplaceholder, vobject, -⟩ := hvalue
  obtain ⟨typeMap, extended, brackets, placeholder, defaultObject⟩ := o
  have hb : readBrackets (s.given command) = brackets := by
    rw [readBrackets, h.valueOf?_given hbrackets rfl, vbrackets]
    cases brackets <;> rfl
  rw [readStubOptions, hb, h.valueOf?_given hmap rfl, vmap, isGiven_given hext rfl, hextended, h.valueOf?_given hplaceholder rfl, vplaceholder,
    h.valueOf?_given hobject rfl, vobject]
  rfl

/-- What a module is shown as is what is said. -/
theorem Sayings.readView_eq {s : Sayings} {view : AstView} (hflag : s.flag = view.flag) : readView (s.given .ast) = view := by
  rw [readView, isGiven_given (by decide) rfl, isGiven_given (by decide) rfl, isGiven_given (by decide) rfl, isGiven_given (by decide) rfl, hflag]
  cases view <;> rfl

end

/-- The command line for a request asks for just that. -/
theorem Request.parse_words (r : Request) (h : r.Sayable) : parse r.words = .ok r := by
  cases r with
  | help => rfl
  | gen c o strict output =>
    have hfit := genSayings_fit h
    have hcommon := hfit.readCommon_eq .gen h.1 rfl rfl rfl rfl
    have hoptions : readStubOptions ((genSayings c o strict output).given .gen) = o :=
      hfit.readStubOptions_eq (by decide) (by simp [genSayings, Common.value]) rfl
    have hstrict : isGiven ((genSayings c o strict output).given .gen) .strict = strict := Sayings.isGiven_given (by decide) rfl
    have houtput : valueOf? ((genSayings c o strict output).given .gen) .output = output := hfit.valueOf?_given (by decide) rfl
    refine (hfit.read .gen).trans ?_
    rw [CommandName.request, hcommon, hoptions, hstrict, houtput]
  | check c o strict syntaxOnly =>
    have hfit := checkSayings_fit h
    have hcommon := hfit.readCommon_eq .check h.1 rfl rfl rfl rfl
    have hoptions : readStubOptions ((checkSayings c o strict syntaxOnly).given .check) = o :=
      hfit.readStubOptions_eq (by decide) (by simp [checkSayings, Common.value]) rfl
    have hstrict : isGiven ((checkSayings c o strict syntaxOnly).given .check) .strict = strict := Sayings.isGiven_given (by decide) rfl
    have hsyntax : isGiven ((checkSayings c o strict syntaxOnly).given .check) .syntaxOnly = syntaxOnly :=
      Sayings.isGiven_given (by decide) rfl
    refine (hfit.read .check).trans ?_
    rw [CommandName.request, hcommon, hoptions, hstrict, hsyntax]
  | ast c view =>
    have hfit := astSayings_fit h
    have hcommon := hfit.readCommon_eq .ast h rfl rfl rfl rfl
    have hview : readView ((astSayings c view).given .ast) = view := Sayings.readView_eq rfl
    refine (hfit.read .ast).trans ?_
    rw [CommandName.request, hcommon, hview]

end QueryStubs.Command
