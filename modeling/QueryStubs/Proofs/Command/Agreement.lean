import Mathlib
import QueryStubs.Command.Run
import QueryStubs.Proofs.Command.Requests
import QueryStubs.Proofs.Suppression.First
import QueryStubs.Stub.Generate

/-!
# Command lines and the functions behind them

A command line that asks for stubs prints what `generate` gives under the configuration that its options describe, and fails where
`generate` does; one that asks for the structured form of a module fails just where `Module.parse` does (`Command.run_agrees`). The two
sides are not the same code: a command looks at every report of a source and reads the module whatever they are, while `Module.parse` goes
by the reports that are left after some are hidden. That hiding keeps a first error is what makes them agree.
-/

namespace QueryStubs

/-- A source gives stubs if it has no error and the module that it holds does. -/
theorem generate_ok_iff {c : Config} {source text : String} :
    generate c source = .ok text ↔
      (Parsed.ofSource source).hasErrors = false ∧ (Parsed.ofSource source).module.emit c = .ok text := by
  unfold generate
  cases hm : Module.parse source with
  | error e =>
    have he := (Module.parse_error_iff source).mp ⟨e, hm⟩
    simp [he]
  | ok m =>
    obtain ⟨hn, rfl⟩ := Module.parse_ok_iff.mp hm
    simp only [hn, true_and]
    cases (Parsed.ofSource source).module.emit c with
    | error f => exact ⟨nofun, nofun⟩
    | ok text' => exact ⟨fun h => by cases h; rfl, fun h => by cases h; rfl⟩

/-- It gives none if it has an error or the module that it holds has a fault. -/
theorem generate_error_iff {c : Config} {source : String} :
    (∃ e, generate c source = .error e) ↔
      (Parsed.ofSource source).hasErrors = true ∨ ∃ f, (Parsed.ofSource source).module.emit c = .error f := by
  constructor
  · rintro ⟨e, he⟩
    by_contra hn
    rw [not_or, Bool.not_eq_true] at hn
    cases hemit : (Parsed.ofSource source).module.emit c with
    | error f => exact hn.2 ⟨f, hemit⟩
    | ok text =>
      rw [generate_ok_iff.mpr ⟨hn.1, hemit⟩] at he
      cases he
  · intro h
    cases hg : generate c source with
    | error e => exact ⟨e, rfl⟩
    | ok text =>
      obtain ⟨hn, hemit⟩ := generate_ok_iff.mp hg
      rw [hn, hemit] at h
      rcases h with h | ⟨f, hf⟩
      · cases h
      · cases hf

namespace Command

/-! ## What a command line describes -/

/-- The text of the module that a command line supplies: it is given itself, or it is read from standard input or from a file. -/
inductive Supplies (s : Surroundings) (given : List (Given OptionKey)) (text : String) : Prop
  | query (h : .value .query text ∈ given)
  | standardInput (h : .operand "-" ∈ given) (hread : s.standardInput = .ok text)
  | file (path : String) (h : .operand path ∈ given) (hne : path ≠ "-") (hread : s.read path = .ok text)

/-- The value of an option, or another where the option is not given. -/
def Chosen (given : List (Given OptionKey)) (key : OptionKey) (default text : String) : Prop :=
  .value key text ∈ given ∨ (∀ other, .value key other ∉ given) ∧ text = default

/-- Options give a table of types: the extended table or the standard one, and merged over it the entries of the type map, if one is
named. Its file can be read then, and its text is that of a type map. -/
def GivesTable (s : Surroundings) (given : List (Given OptionKey)) (types : TypeTable) : Prop :=
  ∃ base, base = (if .flag .extended ∈ given then TypeTable.extended else .standard) ∧
    ((∀ path, .value .typeMap path ∉ given) ∧ types = base ∨
      ∃ path text entries, .value .typeMap path ∈ given ∧ s.read path = .ok text ∧ TypeTable.parse text = .ok entries ∧
        types = base.merge entries)

/-- A configuration is the one that options describe. -/
structure Describes (s : Surroundings) (given : List (Given OptionKey)) (c : Config) : Prop where
  types : GivesTable s given c.types
  brackets : c.brackets = if .value .brackets "square" ∈ given then .square else .angle
  placeholder : Chosen given .placeholder "???" c.placeholder
  indent : c.indent = "  "
  defaultObject : Chosen given .defaultObject "Main" c.defaultObject
  palette : c.palette =
    if .value .color "always" ∈ given ∨ .value .color "never" ∉ given ∧ s.onTerminal = true then .on else .off

section

variable {s : Surroundings} {given : List (Given OptionKey)} {c : Config} {text : String}

/-- The text that is supplied is the one that is loaded. -/
theorem Supplies.load (h : Supplies s given text) (hg : Proper given) : ∃ name, (readInput given).load s = .ok ⟨name, text⟩ := by
  have hoperand : ∀ {path}, .operand path ∈ given →
      readInput given = if path = "-" then .standardInput else .file path := by
    intro path hpath
    have hquery : valueOf? given .query = none := hg.valueOf?_eq_none_iff.mpr fun t ht => by
      have hnone := hg.input ⟨_, ht, rfl⟩
      exact absurd (hnone ▸ mem_operands.mpr hpath) List.not_mem_nil
    obtain ⟨first, hfirst⟩ := List.length_eq_one_iff.mp
      (le_antisymm hg.operand (List.length_pos_of_mem (mem_operands.mpr hpath)))
    obtain rfl : path = first := by simpa [hfirst] using mem_operands.mpr hpath
    simp only [readInput, hquery, hfirst]
  cases h with
  | query h =>
    have hread : readInput given = .query text := by simp only [readInput, hg.valueOf?_eq_some_iff.mpr h]
    exact ⟨"<query>", by rw [hread]; rfl⟩
  | standardInput h hread => exact ⟨"<stdin>", by rw [hoperand h, if_pos rfl, InputChoice.load, hread]⟩
  | file path h hne hread => exact ⟨path, by rw [hoperand h, if_neg hne, InputChoice.load, hread]⟩

/-- The value of an option is the one that is chosen. -/
theorem Chosen.getD {key : OptionKey} {default : String} (h : Chosen given key default text) (hg : Taken given) :
    (valueOf? given key).getD default = text := by
  rcases h with h | ⟨hnone, rfl⟩
  · rw [hg.valueOf?_eq_some_iff.mpr h, Option.getD_some]
  · rw [hg.valueOf?_eq_none_iff.mpr hnone, Option.getD_none]

/-- The table that is given is the one that is read. -/
theorem GivesTable.table {types : TypeTable} (h : GivesTable s given types) (hg : Taken given) :
    (readStubOptions given).table s = .ok types := by
  obtain ⟨base, hbase, h⟩ := h
  have hextended : (readStubOptions given).baseTable = base := by
    rw [hbase, StubOptions.baseTable]
    exact if_congr (hg.isGiven_flag rfl) rfl rfl
  rw [StubOptions.table, hextended]
  rcases h with ⟨hnone, rfl⟩ | ⟨path, text, entries, hpath, hread, hparse, rfl⟩
  · rw [readStubOptions, hg.valueOf?_eq_none_iff.mpr hnone]
  · rw [readStubOptions, hg.valueOf?_eq_some_iff.mpr hpath]
    simp only [hread, hparse]

/-- The brackets are those that are named. -/
theorem readBrackets_eq (hg : Taken given) : readBrackets given = if .value .brackets "square" ∈ given then .square else .angle := by
  unfold readBrackets
  split
  · next h => rw [if_pos (hg.valueOf?_eq_some_iff.mp h)]
  · next h => rw [if_neg fun hs => h (hg.valueOf?_eq_some_iff.mpr hs)]

/-- There are colours if they are asked for, or not refused where the output goes to a terminal. -/
theorem isColored_readColor (hg : Taken given) (onTerminal : Bool) :
    (readColor given).isColored onTerminal = true ↔
      .value .color "always" ∈ given ∨ .value .color "never" ∉ given ∧ onTerminal = true := by
  rw [← hg.valueOf?_eq_some_iff, ← hg.valueOf?_eq_some_iff]
  unfold readColor
  split
  · next h => simp [h, ColorChoice.isColored]
  · next h => simp [h, ColorChoice.isColored]
  · next halways hnever =>
    exact ⟨fun ht => .inr ⟨hnever, ht⟩, fun h => (h.resolve_left halways).2⟩

/-- The configuration that is described is the one that stubs are written with. -/
theorem Describes.config (h : Describes s given c) (hg : Taken given) :
    (readStubOptions given).config ((readColor given).isColored s.onTerminal) c.types = c := by
  obtain ⟨types, brackets, placeholder, indent, defaultObject, palette⟩ := c
  obtain ⟨-, rfl, hplaceholder, rfl, hobject, rfl⟩ := h
  have hplaceholder : (valueOf? given .placeholder).getD "???" = placeholder := hplaceholder.getD hg
  have hobject : (valueOf? given .defaultObject).getD "Main" = defaultObject := hobject.getD hg
  have hpalette : Palette.ofFlag ((readColor given).isColored s.onTerminal) =
      if .value .color "always" ∈ given ∨ .value .color "never" ∉ given ∧ s.onTerminal = true then .on else .off :=
    if_congr (isColored_readColor hg s.onTerminal) rfl rfl
  rw [StubOptions.config, ← hpalette, ← readBrackets_eq hg, ← hplaceholder, ← hobject]
  rfl

end

/-! ## What a run brings about -/

/-- A run ends with an exit status and has printed a text. -/
def Plan.Exits (p : Plan) (status : Nat) (stdout : String) : Prop := p.ending = .exit status ∧ p.stdout = stdout

/-- What there is after a run that ends with an exit status: what it printed, and the folder as it was. -/
theorem Plan.Exits.finish {p : Plan} {status : Nat} {stdout : String} (h : p.Exits status stdout) (folder : Folder) :
    p.finish folder = ⟨status, stdout, p.stderr, folder⟩ := by
  obtain ⟨hending, hstdout⟩ := h
  rw [Plan.finish, hending, ← hstdout]

section

variable {s : Surroundings} {c : Common} {source : Source}

/-- Stubs that can be written are printed, unless the source is refused for its warnings. -/
theorem gen_of_ok {o : StubOptions} {strict : Bool} {types : TypeTable} {text : String} (hload : c.input.load s = .ok source)
    (htable : o.table s = .ok types) (h : generate (o.config (c.color.isColored s.onTerminal) types) source.text = .ok text)
    (hstrict : strict = true → (Parsed.ofSource source.text).hasWarnings = false) :
    (gen s c o strict none).Exits 0 text := by
  obtain ⟨hn, hemit⟩ := generate_ok_iff.mp h
  have haccepted : refused strict (Parsed.ofSource source.text) = false := by
    rw [refused, hn, Bool.false_or]
    cases strict with
    | false => rfl
    | true => exact hstrict rfl
  unfold gen
  simp only [hload, htable, haccepted, Option.isNone_none, Bool.true_and, hemit]
  exact ⟨rfl, rfl⟩

/-- Where stubs cannot be written, nothing is printed. -/
theorem gen_of_error {o : StubOptions} {strict : Bool} {types : TypeTable} {e : GenerateError} (hload : c.input.load s = .ok source)
    (htable : o.table s = .ok types) (h : generate (o.config (c.color.isColored s.onTerminal) types) source.text = .error e) :
    (gen s c o strict none).Exits 1 "" := by
  unfold gen
  simp only [hload, htable, Option.isNone_none, Bool.true_and]
  rcases generate_error_iff.mp ⟨e, h⟩ with he | ⟨f, hf⟩
  · rw [refused, he, Bool.true_or]
    exact ⟨rfl, rfl⟩
  · rw [hf]
    cases refused strict (Parsed.ofSource source.text) with
    | false => exact ⟨rfl, rfl⟩
    | true => exact ⟨rfl, rfl⟩

/-- Neither is anything where one is strict and there is a warning. -/
theorem gen_of_warning {o : StubOptions} {types : TypeTable} (hload : c.input.load s = .ok source) (htable : o.table s = .ok types)
    (h : (Parsed.ofSource source.text).hasWarnings = true) : (gen s c o true none).Exits 1 "" := by
  unfold gen
  simp [hload, htable, refused, h, Plan.Exits]

/-- The structured form of a module is shown just where the module can be read. -/
theorem ast_exits_iff (hload : c.input.load s = .ok source) :
    (ast s c .json).ending = .exit 0 ↔ ∃ m, Module.parse source.text = .ok m := by
  have hparse : (∃ m, Module.parse source.text = .ok m) ↔ (Parsed.ofSource source.text).hasErrors = false :=
    ⟨fun ⟨_, hm⟩ => (Module.parse_ok_iff.mp hm).1, fun hn => ⟨_, Module.parse_of_faultless hn⟩⟩
  rw [hparse]
  unfold ast
  simp only [hload]
  cases (Parsed.ofSource source.text).hasErrors with
  | false => exact ⟨fun _ => rfl, fun _ => rfl⟩
  | true => exact ⟨nofun, nofun⟩

end

/-- A command line that spells proper things runs the request of these. -/
theorem run_spelled {command : CommandName} {given : List (Given OptionKey)} {args : List String}
    (hargs : Spelled command.specs given args) (hgiven : Proper given) (s : Surroundings) :
    run s (command.label :: args) = (command.request given).run s := by
  have hlabel : CommandName.ofLabel? command.label = some command := by cases command <;> rfl
  have hread := (CommandName.read_eq_ok_iff.mpr ⟨given, hargs, hgiven, rfl⟩).1
  rw [run, Request.parse]
  simp only [hlabel, hread]

/-- However a command line spells what is given, in whatever order, and wherever it is run, if the text of its module and the type map that it
may name can be read: where it asks for stubs and for no file to put them in, what is printed is what the text gives under the configuration
that is described, and the exit status says whether it gives stubs; if it also asks to be strict, nothing is printed where there is a warning.
Where it asks for the structured form, the exit status says whether the text can be read as a module. -/
theorem run_agrees (s : Surroundings) (given : List (Given OptionKey)) (hgiven : Proper given) (text : String) (htext : Supplies s given text)
    (args : List String) :
    (∀ c, Spelled CommandName.gen.specs given args → (∀ path, .value .output path ∉ given) → Describes s given c →
      (∀ stubs, generate c text = .ok stubs → (.flag .strict ∈ given → (Parsed.ofSource text).hasWarnings = false) →
        (run s ("gen" :: args)).Exits 0 stubs) ∧
      (∀ e, generate c text = .error e → (run s ("gen" :: args)).Exits 1 "") ∧
      (.flag .strict ∈ given → (Parsed.ofSource text).hasWarnings = true → (run s ("gen" :: args)).Exits 1 "")) ∧
    (Spelled CommandName.ast.specs given args → .flag .json ∈ given →
      ((run s ("ast" :: args)).ending = .exit 0 ↔ ∃ m, Module.parse text = .ok m)) := by
  obtain ⟨name, hload⟩ := htext.load hgiven
  refine ⟨fun c hargs houtput hc => ?_, fun hargs hjson => ?_⟩
  · have hrun : run s ("gen" :: args) = gen s (readCommon given) (readStubOptions given) (isGiven given .strict) none := by
      rw [← hgiven.valueOf?_eq_none_iff.mpr houtput]
      exact run_spelled hargs hgiven s
    have htable := hc.types.table hgiven.toTaken
    have hconfig := hc.config hgiven.toTaken
    have hstrict : isGiven given .strict = true ↔ .flag .strict ∈ given := hgiven.isGiven_flag rfl
    rw [hrun]
    refine ⟨fun stubs h hquiet => gen_of_ok hload htable (hconfig.symm ▸ h) fun hs => hquiet (hstrict.mp hs),
      fun e h => gen_of_error hload htable (hconfig.symm ▸ h), fun hs h => ?_⟩
    rw [hstrict.mpr hs]
    exact gen_of_warning hload htable h
  · have hshown : isGiven given .json = true := (hgiven.isGiven_flag rfl).mpr hjson
    have hraw : isGiven given .raw = false :=
      Bool.eq_false_iff.mpr fun hr => hgiven.view (isGiven_iff.mp hr) (isGiven_iff.mp hshown)
    have hview : readView given = .json := by simp [readView, hraw, hshown]
    have hrun : run s ("ast" :: args) = ast s (readCommon given) .json := by
      rw [← hview]
      exact run_spelled hargs hgiven s
    rw [hrun]
    have hexits := ast_exits_iff (c := readCommon given) hload
    exact hexits

/-- A module with one function. -/
def single : Module where
  version := none
  kind := .main
  functions := [⟨⟨none, "f"⟩, [], some ⟨.atomic ⟨some "xs", "string"⟩, .zeroOrMore⟩, .external, ⟨0, 44⟩⟩]

/-- Where it stands in a file beside a type map. -/
def besideTypes : Surroundings where
  read path := if path = "f.xq" then .ok "declare function f() as xs:string* external;"
    else if path = "types.json" then .ok "\x7b\"xs:string\": \"Text\"\x7d"
    else .error .notFound

/-- What is asked for by a command line that names that type map and square brackets. -/
def asked : List (Given OptionKey) := [.flag .verbose, .operand "f.xq", .value .brackets "square", .value .typeMap "types.json"]

/-- The configuration that this describes. -/
def askedConfig : Config :=
  { types := TypeTable.standard.merge (.ofList [("xs:string", "Text")]), brackets := .square, palette := .off }

set_option maxRecDepth 10000 in
/-- The stubs of a module in a file are printed, and a module on the command line can be shown in the structured form. If one is strict, nothing
is printed of a module with a function outside of its namespace. -/
theorem run_agrees_single :
    (run besideTypes ["gen", "-v", "f.xq", "--brackets", "square", "--type-map=types.json"]).Exits 0
        "object Main \x7b\n  def f(): Option[Array[Text]] = ???\n\x7d\n" ∧
      (run besideTypes ["ast", "--json", "-q", "declare function f() as xs:string* external;"]).ending = .exit 0 ∧
        (run besideTypes ["gen", "--strict", "-qmodule namespace m='u';declare function f() external;"]).Exits 1 "" := by
  have hm : Module.parse "declare function f() as xs:string* external;" = .ok single := by
    cbv
  refine ⟨?_, ?_, ?_⟩
  · have hgiven : Proper asked := ⟨⟨by decide, by decide, by decide⟩, by decide, by decide, by decide⟩
    have htext : Supplies besideTypes asked "declare function f() as xs:string* external;" := .file "f.xq" (by decide) (by decide) rfl
    have hargs : Spelled CommandName.gen.specs asked ["-v", "f.xq", "--brackets", "square", "--type-map=types.json"] :=
      .row (c := 'v') (.flag (o := OptionKey.verbose.spec) (by decide) rfl rfl .nil)
        (.operand (by decide) (.apart (o := OptionKey.brackets.spec) (by decide) rfl (by decide)
          (.attached (o := OptionKey.typeMap.spec) (by decide) rfl "types.json" .done)))
    have hentries : TypeTable.parse "\x7b\"xs:string\": \"Text\"\x7d" = .ok (.ofList [("xs:string", "Text")]) := by
      cbv
    have hconfig : Describes besideTypes asked askedConfig :=
      { types := ⟨.standard, (if_neg (by decide)).symm, .inr ⟨"types.json", _, _, by decide, rfl, hentries, rfl⟩⟩
        brackets := (if_pos (by decide)).symm
        placeholder := .inr ⟨fun other h => by simp [asked] at h, rfl⟩
        indent := rfl
        defaultObject := .inr ⟨fun other h => by simp [asked] at h, rfl⟩
        palette := (if_neg (by decide)).symm }
    have hemit : single.emit askedConfig = .ok "object Main \x7b\n  def f(): Option[Array[Text]] = ???\n\x7d\n" := by
      cbv
    obtain ⟨hn, hsingle⟩ := Module.parse_ok_iff.mp hm
    exact ((run_agrees besideTypes asked hgiven _ htext _).1 askedConfig hargs (fun path h => by simp [asked] at h) hconfig).1 _
      (generate_ok_iff.mpr ⟨hn, hsingle ▸ hemit⟩) (fun h => absurd h (by decide))
  · have hgiven : Proper [.flag .json, .value .query "declare function f() as xs:string* external;"] :=
      ⟨⟨by decide, by decide, by decide⟩, by decide, by decide, by decide⟩
    have hargs : Spelled CommandName.ast.specs [.flag .json, .value .query "declare function f() as xs:string* external;"]
        ["--json", "-q", "declare function f() as xs:string* external;"] :=
      .flag (o := OptionKey.json.spec) (by decide) rfl
        (.rowApart (c := 'q') (.waiting (o := OptionKey.query.spec) (by decide) rfl rfl) (by decide) .done)
    exact ((run_agrees besideTypes _ hgiven _ (.query (by decide)) _).2 hargs (by decide)).mpr ⟨_, hm⟩
  · have hgiven : Proper [.flag .strict, .value .query "module namespace m='u';declare function f() external;"] :=
      ⟨⟨by decide, by decide, by decide⟩, by decide, by decide, by decide⟩
    have hargs : Spelled CommandName.gen.specs [.flag .strict, .value .query "module namespace m='u';declare function f() external;"]
        ["--strict", "-qmodule namespace m='u';declare function f() external;"] :=
      .flag (o := OptionKey.strict.spec) (by decide) rfl
        (.row (c := 'q') (.joined (o := OptionKey.query.spec) (d := 'm') (by decide) rfl rfl (by decide)) .done)
    have hconfig : Describes besideTypes [.flag .strict, .value .query "module namespace m='u';declare function f() external;"] {} :=
      { types := ⟨.standard, (if_neg (by decide)).symm, .inl ⟨fun path h => by simp at h, rfl⟩⟩
        brackets := (if_neg (by decide)).symm
        placeholder := .inr ⟨fun other h => by simp at h, rfl⟩
        indent := rfl
        defaultObject := .inr ⟨fun other h => by simp at h, rfl⟩
        palette := (if_neg (by decide)).symm }
    have hwarning : (Parsed.ofSource "module namespace m='u';declare function f() external;").hasWarnings = true := by
      cbv
    exact ((run_agrees besideTypes _ hgiven _ (.query (by decide)) _).1 {} hargs (fun path h => by simp at h) hconfig).2.2 (by decide) hwarning

end Command

end QueryStubs
