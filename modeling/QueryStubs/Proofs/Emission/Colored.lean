import Mathlib
import QueryStubs.Proofs.Emission.Palettes
import QueryStubs.Proofs.Emission.Shape
import QueryStubs.Proofs.Text.Signals

/-!
# Stubs with and without colours

With colours and without, stubs are written as lines, and each line with colours is the one without them and styles in it, all of which are
switched off before the line ends (`Text.Tinted`). This asks for texts in which there is no escape character to begin with: those that a
configuration adds (`Config.Unescaped`) and the names that are written (`FunctionDecl.Unescaped`). Main result: `Module.emit_colored`.
-/

namespace QueryStubs

open Text (Unescaped Tinted)

/-- No escape character in a text that is written as it is in the configuration. -/
structure Config.Unescaped (c : Config) : Prop where
  placeholder : Text.Unescaped c.placeholder
  indent : Text.Unescaped c.indent
  defaultObject : Text.Unescaped c.defaultObject
  types : ∀ e ∈ c.types.entries, Text.Unescaped e.2

/-- No escape character in a name of which something is written. -/
structure FunctionDecl.Unescaped (f : FunctionDecl) : Prop where
  qualifier : Text.Unescaped f.name.qualifierText
  localPart : Text.Unescaped f.name.localPart
  params : ∀ p ∈ f.params, Text.Unescaped p.name.localPart

/-- No escape character in a stub. -/
structure Stub.Unescaped (s : Stub) : Prop where
  name : Text.Unescaped s.name
  params : ∀ q ∈ s.params, Text.Unescaped q.1 ∧ Text.Unescaped q.2
  returnType : Text.Unescaped s.returnType

/-! ## Case and types -/

/-- A text without escapes has none in camel case. -/
theorem Text.Unescaped.camelCase {s : String} (h : Unescaped s) : Unescaped (camelCase '-' s) := fun hmem =>
  keptByCase_unescaped.camelCase (by decide) (fun _ hc heq => h (heq ▸ hc)) _ hmem rfl

/-- It has none in title case. -/
theorem Text.Unescaped.titleCase {s : String} (h : Unescaped s) : Unescaped (titleCase s) := fun hmem =>
  keptByCase_unescaped.titleCase (fun _ hc heq => h (heq ▸ hc)) _ hmem rfl

namespace Config.Unescaped

variable {c : Config} (hc : c.Unescaped)

include hc

/-- No target type has an escape in it if no type of the tables has. -/
theorem target {t : Option SequenceType} {type : String} (h : SequenceType.TargetOf c t type) : Text.Unescaped type :=
  h.of_entries hc.types fun _ houter _ hinner =>
    c.brackets.not_mem_wrap (by decide) ((by decide : ∀ s ∈ ["Option", "Array"], Text.Unescaped s) _ houter) hinner

/-- No name of a container has one if the prefix has none. -/
theorem containerName {p : String} (hp : Text.Unescaped p) : Text.Unescaped (c.containerName p) := by
  cases hcs : p.toList with
  | nil =>
    obtain rfl := String.toList_eq_nil_iff.mp hcs
    exact hc.defaultObject
  | cons first rest => exact c.containerName_eq_titleCase hcs ▸ hp.titleCase

/-- No text of a stub has one if no name of its function has. -/
theorem stub {f : FunctionDecl} (hf : f.Unescaped) {s : Stub} (h : f.HasStub c s) : s.Unescaped := by
  refine ⟨h.name ▸ hf.localPart.camelCase, fun q hq => ?_, hc.target h.returnType⟩
  obtain ⟨p, hp, hname, htype⟩ := forall₂_mem h.params.flip q hq
  exact ⟨hname ▸ hf.params p hp, hc.target htype⟩

end Config.Unescaped

/-! ## Palettes -/

/-- The palette makes no difference to the target of a type. -/
theorem SequenceType.Target.palette {c : Config} {t : SequenceType} {type : String} (h : t.Target c type) (p : Palette) :
    t.Target { c with palette := p } type := by
  cases h with
  | exactlyOne h => exact .exactlyOne h
  | optional h => exact .optional h
  | zeroOrMore h => exact .zeroOrMore h

/-- It makes none where the type may be left out. -/
theorem SequenceType.TargetOf.palette {c : Config} {t : Option SequenceType} {type : String} (h : TargetOf c t type) (p : Palette) :
    TargetOf { c with palette := p } t type := by
  obtain ⟨u, hu, htype⟩ := h
  exact ⟨u, hu, htype.palette p⟩

/-- A function has the same stub whatever the palette. -/
theorem FunctionDecl.HasStub.palette {c : Config} {f : FunctionDecl} {s : Stub} (h : f.HasStub c s) (p : Palette) :
    f.HasStub { c with palette := p } s :=
  ⟨h.name, h.params.imp fun _ _ hq => ⟨hq.1, hq.2.palette p⟩, h.returnType.palette p⟩

namespace Text.Tinted

variable {s : String} (h : Unescaped s)

include h

/-- What is blue is tinted. -/
theorem inBlue : Tinted (Palette.on.inBlue s) (Palette.off.inBlue s) := by
  rw [Palette.inBlue_off]
  change Tinted (style "34" ++ s ++ style "0") s
  exact between (by decide) (by decide) h

/-- What is green is tinted. -/
theorem inGreen : Tinted (Palette.on.inGreen s) (Palette.off.inGreen s) := by
  rw [Palette.inGreen_off]
  change Tinted (style "32" ++ s ++ style "0") s
  exact between (by decide) (by decide) h

/-- What is dimmed is tinted. -/
theorem dimmed : Tinted (Palette.on.dimmed s) (Palette.off.dimmed s) := by
  rw [Palette.dimmed_off]
  change Tinted (style "2" ++ s ++ style "0") s
  exact between (by decide) (by decide) h

end Text.Tinted

/-! ## Lines -/

/-- Two images of the elements of a list correspond if those of each element do. -/
theorem forall₂_map_map {α β γ : Type} {R : β → γ → Prop} {f : α → β} {g : α → γ} {xs : List α} (h : ∀ x ∈ xs, R (f x) (g x)) :
    List.Forall₂ R (xs.map f) (xs.map g) :=
  List.forall₂_map_left_iff.mpr (List.forall₂_map_right_iff.mpr (List.forall₂_same.mpr h))

namespace Stub

variable {c : Config}

/-- A parameter is tinted as a whole. -/
theorem tinted_paramText {q : String × String} (hname : Text.Unescaped q.1) (htype : Text.Unescaped q.2) :
    Tinted (paramText .on q) (paramText .off q) :=
  (((Tinted.refl hname).append (.dimmed (by decide))).append (.refl (by decide))).append (.inGreen htype)

/-- A stub with colours is the stub without them and styles in it. -/
theorem tinted_text (hc : c.Unescaped) {s : Stub} (hs : s.Unescaped) :
    Tinted (s.text { c with palette := .on }) (s.text { c with palette := .off }) := by
  have hparams : List.Forall₂ Tinted (s.params.map (paramText .on)) (s.params.map (paramText .off)) :=
    forall₂_map_map fun q hq => tinted_paramText (hs.params q hq).1 (hs.params q hq).2
  have hhead := (((Tinted.dimmed (s := "def") (by decide)).append (.refl (s := " ") (by decide))).append (.inBlue hs.name)).append
    (.dimmed (s := "(") (by decide))
  have hlist := (hhead.append (.intercalate (.dimmed (s := ", ") (by decide)) hparams)).append (.dimmed (s := ")") (by decide))
  have hresult := (hlist.append (.refl (s := ": ") (by decide))).append (.inGreen hs.returnType)
  exact (((hresult.append (.refl (s := " ") (by decide))).append (.dimmed (s := "=") (by decide))).append
    (.refl (s := " ") (by decide))).append (.refl hc.placeholder)

/-- So is every line of a container. -/
theorem tinted_containerLines (hc : c.Unescaped) {name : String} (hname : Text.Unescaped name) {stubs : List Stub}
    (hstubs : ∀ s ∈ stubs, s.Unescaped) :
    List.Forall₂ Tinted (containerLines { c with palette := .on } name stubs) (containerLines { c with palette := .off } name stubs) := by
  have hopen := (((Tinted.dimmed (s := "object") (by decide)).append (.refl (s := " ") (by decide))).append (.inBlue hname)).append
    (.refl (s := " ") (by decide))
  rw [containerLines_eq, containerLines_eq]
  refine .cons (hopen.append (.dimmed (by decide))) (List.rel_append ?_ (.cons (.dimmed (by decide)) .nil))
  exact forall₂_map_map fun s hs => (Tinted.refl hc.indent).append (tinted_text hc (hstubs s hs))

end Stub

/-! ## Texts -/

namespace Text

/-- Lines with styles make a text with styles. -/
theorem Tinted.unlines {ts ps : List String} (h : List.Forall₂ Tinted ts ps) : Tinted (unlines ts) (unlines ps) := by
  induction h with
  | nil => exact .refl List.not_mem_nil
  | cons ht _ ih =>
    rw [unlines_cons, unlines_cons]
    exact (ht.append (.refl (by decide))).append ih

/-- Lines with an empty line between blocks of them. -/
theorem forall₂_intercalate {bs cs : List (List String)} (h : List.Forall₂ (List.Forall₂ Tinted) bs cs) :
    List.Forall₂ Tinted ([""].intercalate bs) ([""].intercalate cs) := by
  induction h with
  | nil => exact .nil
  | @cons b c bs cs hb hbs ih =>
    cases hbs with
    | nil => simpa using hb
    | cons hb' hbs' =>
      rw [List.intercalate_cons_of_ne_nil (List.cons_ne_nil _ _), List.intercalate_cons_of_ne_nil (List.cons_ne_nil _ _)]
      exact List.rel_append (List.rel_append hb (.cons (.refl (by decide)) .nil)) ih

end Text

/-- The lines with colours are the lines without them and styles in these. -/
theorem Module.tinted_stubLines {c : Config} {m : Module} (hc : c.Unescaped) (hm : ∀ f ∈ m.functions, f.Unescaped)
    {stub : FunctionDecl → Stub} (hstub : ∀ f ∈ m.functions, f.HasStub c (stub f)) :
    List.Forall₂ Tinted (m.stubLines { c with palette := .on } stub) (m.stubLines { c with palette := .off } stub) := by
  refine Text.forall₂_intercalate (forall₂_map_map fun p hp => ?_)
  obtain ⟨f, hf, rfl⟩ := FunctionDecl.mem_prefixes.mp hp
  refine Stub.tinted_containerLines hc (hc.containerName (hm f hf).qualifier) fun s hs => ?_
  obtain ⟨g, hg, rfl⟩ := List.mem_map.mp hs
  have hg := (FunctionDecl.mem_withPrefix.mp hg).1
  exact hc.stub (hm g hg) (hstub g hg)

/-- With colours stubs fail to be written exactly if they do without, with the same fault. Where they are written, the text without its styles
is the one without colours, and it is made of lines, those of the blocks with an empty line between, in each of which every style that is
switched on is switched off before the line ends. -/
theorem Module.emit_colored {c : Config} {m : Module} (hc : c.Unescaped) (hm : ∀ f ∈ m.functions, f.Unescaped) :
    (∀ fault, m.emit { c with palette := .on } = .error fault ↔ m.emit { c with palette := .off } = .error fault) ∧
      ∀ text, m.emit { c with palette := .on } = .ok text → m.emit { c with palette := .off } = .ok (Text.unstyled text) ∧
        ∃ (line : FunctionDecl → String) (lines : List String), (∀ f ∈ m.functions, f.HasLine c (line f)) ∧
          text = Text.unlines lines ∧
            lines.map Text.unstyled = [""].intercalate ((FunctionDecl.prefixes m.functions).map (m.block c line)) ∧
              ∀ l ∈ lines, Text.Settled l := by
  have hsame : ∀ fault, m.emit { c with palette := .on } = .error fault ↔ m.emit { c with palette := .off } = .error fault :=
    fun _ => (emit_error_palette .on).trans (emit_error_palette .off).symm
  refine ⟨hsame, fun text htext => ?_⟩
  obtain ⟨hfaults, hon⟩ := Module.of_emit htext
  obtain ⟨stub, hcolored⟩ := Module.exists_stubs (List.append_eq_nil_iff.mp hfaults).1
  have hstub : ∀ p : Palette, ∀ f ∈ m.functions, f.HasStub { c with palette := p } (stub f) := fun p f hf => (hcolored f hf).palette p
  -- without colours there is a text too, because otherwise there would be a fault with them
  obtain ⟨plain, hplain⟩ : ∃ plain, m.emit { c with palette := .off } = .ok plain := by
    cases hanswer : m.emit { c with palette := .off } with
    | ok plain => exact ⟨plain, rfl⟩
    | error fault =>
      rw [(hsame fault).mpr hanswer] at htext
      cases htext
  obtain ⟨-, hoff⟩ := Module.of_emit hplain
  have htextLines := hon.lines (hstub .on)
  have hplainLines := hoff.lines (hstub .off)
  have hlines := Module.tinted_stubLines hc hm (hstub c.palette)
  refine ⟨?_, fun f => (stub f).plainLine c, m.stubLines { c with palette := .on } stub,
    fun f hf => ⟨stub f, hstub c.palette f hf, rfl⟩, htextLines, ?_, ?_⟩
  · rw [hplain, hplainLines, htextLines, (Tinted.unlines hlines).unstyled_eq]
  · rw [← eq_map_of_forall₂ hlines fun _ _ _ h => h.unstyled_eq.symm]
    exact Module.stubLines_plain rfl m stub
  · intro l hl
    obtain ⟨_, -, h⟩ := forall₂_mem hlines l hl
    exact h.settled

/-- A function whose names are parts of the sequence of a style. -/
def Module.bracketed : Module where
  version := none
  kind := .main
  functions :=
    [⟨⟨some "[3", "4m"⟩, [⟨⟨none, "[2m"⟩, some ⟨.atomic ⟨some "xs", "string"⟩, .optional⟩⟩],
      some ⟨.atomic ⟨some "xs", "boolean"⟩, .exactlyOne⟩, .external, ⟨0, 0⟩⟩]

set_option maxRecDepth 10000 in
/-- They are no styles. -/
theorem Module.emit_colored_bracketed : Config.Unescaped { brackets := .square, placeholder := "[0m" } ∧
    (∀ f ∈ bracketed.functions, f.Unescaped) ∧
      ∃ text, bracketed.emit { brackets := .square, placeholder := "[0m", palette := .on } = .ok text ∧ ¬ Unescaped text ∧
        bracketed.emit { brackets := .square, placeholder := "[0m", palette := .off } = .ok (Text.unstyled text) ∧
          Text.unstyled text = "object [3 \x7b\n  def 4m([2m: Option[String]): Boolean = [0m\n\x7d\n" := by
  have hc : Config.Unescaped { brackets := .square, placeholder := "[0m" } := ⟨by decide, by decide, by decide, by decide⟩
  have hm : ∀ f ∈ bracketed.functions, f.Unescaped := List.forall_mem_singleton.mpr ⟨by decide, by decide, by decide⟩
  have hon : bracketed.emit { brackets := .square, placeholder := "[0m", palette := .on } = .ok
      ("\x1b[2mobject\x1b[0m \x1b[34m[3\x1b[0m \x1b[2m\x7b\x1b[0m\n" ++
        "  \x1b[2mdef\x1b[0m \x1b[34m4m\x1b[0m\x1b[2m(\x1b[0m[2m\x1b[2m:\x1b[0m \x1b[32mOption[String]\x1b[0m\x1b[2m)\x1b[0m: " ++
          "\x1b[32mBoolean\x1b[0m \x1b[2m=\x1b[0m [0m\n\x1b[2m\x7d\x1b[0m\n") := by
    cbv
  have hoff : bracketed.emit { brackets := .square, placeholder := "[0m", palette := .off } =
      .ok "object [3 \x7b\n  def 4m([2m: Option[String]): Boolean = [0m\n\x7d\n" := by
    cbv
  obtain ⟨hunstyled, -⟩ := (emit_colored hc hm).2 _ hon
  exact ⟨hc, hm, _, hon, by decide +kernel, hunstyled, Except.ok.inj (hunstyled.symm.trans hoff)⟩

end QueryStubs
