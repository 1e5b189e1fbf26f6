import QueryStubs.Proofs.Scan.Boundaries
import QueryStubs.Proofs.Written.Parsed

/-!
# Literals wherever they stand

A text that is written as a literal between two tokens, and not inside another literal, is cut into the two marks and what is between them
(`Token.quoted_at_boundary`), and stands for the text. A module declaration and a version declaration give back the texts of their literals,
in whichever marks they are written (`Quoted.round_trip`).
-/

namespace QueryStubs

open Grammar (leavesFor)
open Token (charsOf textOf ofQuote ofSource)

/-! ## Literals between tokens -/

namespace Token

/-- Between two tokens a literal is cut into its own tokens, and what follows it as if it stood alone. -/
theorem quoted_at_boundary (l : Quoted) {front behind : String} {P Q : List Token} (h : ofSource (front ++ l.source ++ behind) = P ++ Q)
    (hfront : textOf P = front) (hP : Literals P) (hbehind : behind.toList.head? ≠ some l.quote.char) :
    Q = ofQuote l.quote :: (ofBody (Text.doubled l.quote.char l.text.toList) ++ ofQuote l.quote :: ofSource behind) := by
  have hchars : charsOf (ofSource behind) = behind.toList := toList_scan _
  have hrescan : Apart (ofSource behind) := congrArg scan hchars
  have hrest : charsOf Q = charsOf (l.tokens ++ ofSource behind) := by
    have hall : charsOf (P ++ Q) = (front ++ l.source ++ behind).toList := h ▸ toList_scan _
    rw [charsOf_append, ← toList_textOf P, hfront, String.toList_append, String.toList_append, List.append_assoc] at hall
    rw [List.append_cancel_left hall, charsOf_append, l.chars_tokens, hchars]
  have hstops : Stops (· = l.quote.char) (ofSource behind) := fun c hc => decide_eq_false fun he => hbehind (by rw [← hchars, hc, he])
  have hapart := l.apart hrescan hstops
  rw [← scan_boundary h hP, hrest, hapart, Quoted.tokens, List.cons_append, List.append_assoc, List.singleton_append]

end Token

/-! ## Declarations with literals -/

open Grammar

namespace Module

variable {u : Tree} {source : String}

/-- The tree of a module that holds one declaration in front of its prolog, and nothing else. -/
def heading (u : Tree) : Tree := .node .root [u, .node .prolog []]

/-- Such a module is read from the text of the declaration. -/
theorem parse_heading (hu : u.Stands) (hsource : charsOf u.tokens = source.toList)
    (hb : ∃ offset reached, Form.whole.Builds (look 0 0 u.tokens) [heading u] (look offset reached [])) :
    parse source = .ok (ofTree (heading u)) := by
  have hapart := hu.apart [] .nil
  rw [List.append_nil, Token.Apart, hsource] at hapart
  have hstart : (Cursor.start source).outlook = look 0 0 u.tokens := by
    rw [← hapart]
    rfl
  obtain ⟨offset, reached, hb⟩ := hb
  rw [← hstart] at hb
  obtain ⟨hn, ht⟩ := Parsed.ofSource_of_builds hb rfl
  rw [parse_of_faultless hn, ht]

/-- A module declaration alone is a library module, whatever is in its literal. -/
theorem parse_moduleDecl {qualifier : String} (hq : IsNCName qualifier) (uri : Quoted) :
    parse ("module namespace " ++ qualifier ++ " = " ++ uri.source ++ ";") =
      .ok { version := none, kind := .library qualifier uri.text, functions := [] } := by
  have hbuilds : ∃ offset reached, Form.whole.Builds (look 0 0 (moduleDeclTree qualifier uri).tokens)
      [heading (moduleDeclTree qualifier uri)] (look offset reached []) := by
    have hprolog : Spells .prolog [] := Spells.none.seq .none
    obtain ⟨offset, reached, hb⟩ := (moduleDecl_spells false qualifier uri).seq (hprolog.leadNode .prolog) 0 0 []
    have hversion : ¬ StartsVersion ((look 0 0 (moduleDeclTree qualifier uri).tokens).ahead.map (·.token)) := fun h =>
      not_isWordAt_look false (fun t ht => Option.some.inj ht ▸ ⟨rfl, by decide⟩) 0 0 h.1
    have htokens : tokensOf (leavesFor (gap false) ++ [moduleDeclTree qualifier uri] ++ [.node .prolog []]) ++ [] =
        (moduleDeclTree qualifier uri).tokens := by simp [gap, leavesFor]
    rw [htokens] at hb
    have hrest := Form.Builds.seq (Form.Builds.first (g := .guard (¬ StartsModule ·) .mainModule) hb) (.trivia _)
    exact ⟨offset, reached, .leadNode (.seq (.second (.guard hversion (.nothing _))) hrest)⟩
  obtain ⟨hqualifier, huri⟩ := moduleDecl_viewed qualifier uri 0
  have hfound : Node.moduleDecl? (.ofTree (heading (moduleDeclTree qualifier uri))) = some ⟨.moduleDecl, moduleDeclParts qualifier uri, 0⟩ := rfl
  rw [parse_heading (moduleDecl_stands uri hq) (moduleDecl_chars qualifier uri) hbuilds, ofTree, ofNode, Node.toModuleKind, hfound]
  simp only
  rw [hqualifier, huri]
  rfl

/-- A version declaration alone is a main module, whatever is in its literals. -/
theorem parse_versionDecl {version encoding : Option Quoted} (h : version.isSome ∨ encoding.isSome) :
    parse ("xquery" ++ Quoted.clause "version" version ++ Quoted.clause "encoding" encoding ++ ";") =
      .ok { version := some ⟨version.map Quoted.text, encoding.map Quoted.text⟩, kind := .main, functions := [] } := by
  have hbuilds : ∃ offset reached, Form.whole.Builds (look 0 0 (versionTree version encoding).tokens)
      [heading (versionTree version encoding)] (look offset reached []) := by
    obtain ⟨offset, reached, hb⟩ := versionTree_spells h 0 0 []
    have hempty : Module.Writable ⟨some ⟨some "", none⟩, .main, []⟩ := ⟨by simp [Version.Writable], trivial, by simp⟩
    obtain ⟨offset', reached', hbody⟩ := builds_bodyTrees hempty offset reached
    have htokens : tokensOf [versionTree version encoding] ++ [] = (versionTree version encoding).tokens := by simp
    rw [htokens] at hb
    exact ⟨offset', reached', .leadNode (.seq (.first hb) (.seq hbody (.trivia _)))⟩
  have hfound : Node.versionDecl? (.ofTree (heading (versionTree version encoding))) =
      some ⟨.versionDecl, versionParts version encoding, 0⟩ := rfl
  rw [parse_heading (versionTree_stands version encoding) (versionTree_chars version encoding) hbuilds, ofTree, ofNode, hfound, Option.map_some,
    versionTree_viewed]
  rfl

end Module

/-! ## Any text in either mark -/

/-- Any text comes back from a literal in either mark. Where the literal stands in a source between two tokens, outside other literals and
with no other such mark behind it, it is cut into the mark, what is between the marks, which is absent just if the text is empty, and the
mark, and what is made of these tokens stands for the text. A module declaration gives the text back as the URI of a library module, and a
version declaration as the version or the encoding. -/
theorem Quoted.round_trip (q : Quote) (v : String) :
    (∀ (front behind : String) (P Q : List Token), ofSource (front ++ Quoted.source ⟨q, v⟩ ++ behind) = P ++ Q → textOf P = front →
      Token.Literals P → behind.toList.head? ≠ some q.char →
        ∃ body : List Token, Q = ofQuote q :: (body ++ ofQuote q :: ofSource behind) ∧
          body = (if v = "" then [] else [⟨.literalText, String.ofList (Text.doubled q.char v.toList)⟩]) ∧
            ∀ start, Node.literalValue ⟨.str, leavesFor (ofQuote q :: (body ++ [ofQuote q])), start⟩ = v) ∧
      (∀ qualifier, IsNCName qualifier →
        Module.parse ("module namespace " ++ qualifier ++ " = " ++ Quoted.source ⟨q, v⟩ ++ ";") =
          .ok { version := none, kind := .library qualifier v, functions := [] }) ∧
        Module.parse ("xquery version " ++ Quoted.source ⟨q, v⟩ ++ ";") =
            .ok { version := some ⟨some v, none⟩, kind := .main, functions := [] } ∧
          Module.parse ("xquery encoding " ++ Quoted.source ⟨q, v⟩ ++ ";") =
              .ok { version := some ⟨none, some v⟩, kind := .main, functions := [] } ∧
            ∀ (q' : Quote) (w : String),
              Module.parse ("xquery version " ++ Quoted.source ⟨q, v⟩ ++ " encoding " ++ Quoted.source ⟨q', w⟩ ++ ";") =
                .ok { version := some ⟨some v, some w⟩, kind := .main, functions := [] } := by
  have hspell : ∀ version encoding : Option Quoted, (version.isSome ∨ encoding.isSome) → ∀ source : String,
      source.toList = ("xquery" ++ Quoted.clause "version" version ++ Quoted.clause "encoding" encoding ++ ";").toList →
        Module.parse source =
          .ok { version := some ⟨version.map Quoted.text, encoding.map Quoted.text⟩, kind := .main, functions := [] } := by
    intro version encoding h source hsource
    rw [String.toList_inj.mp hsource]
    exact Module.parse_versionDecl h
  refine ⟨?_, fun qualifier hq => Module.parse_moduleDecl hq ⟨q, v⟩, ?_, ?_, ?_⟩
  · intro front behind P Q hscan hfront hP hbehind
    exact ⟨_, Token.quoted_at_boundary ⟨q, v⟩ hscan hfront hP hbehind, Token.ofBody_doubled q v, Quoted.viewed ⟨q, v⟩⟩
  · exact hspell (some ⟨q, v⟩) none (.inl rfl) _ (by simp [Quoted.clause, String.toList_append])
  · exact hspell none (some ⟨q, v⟩) (.inr rfl) _ (by simp [Quoted.clause, String.toList_append])
  · exact fun q' w => hspell (some ⟨q, v⟩) (some ⟨q', w⟩) (.inl rfl) _ (by simp [Quoted.clause, String.toList_append])

/-- A text with marks of both kinds at its ends, the start of a comment, a brace and a line end, right behind another literal. -/
theorem Quoted.round_trip_mixed :
    (∃ body : List Token,
        [⟨.singleQuote, "\x27"⟩, ⟨.literalText, "\x27\x27\x27\x27(:\x7b\n\x22\x27\x27"⟩, ⟨.singleQuote, "\x27"⟩, ⟨.semicolon, ";"⟩] =
            ofQuote .single :: (body ++ ofQuote .single :: ofSource ";") ∧
          body = [⟨.literalText, "\x27\x27\x27\x27(:\x7b\n\x22\x27\x27"⟩] ∧
            ∀ start,
              Node.literalValue ⟨.str, leavesFor (ofQuote .single :: (body ++ [ofQuote .single])), start⟩ = "\x27\x27(:\x7b\n\x22\x27") ∧
      Module.parse ("module namespace p = " ++ Quoted.source ⟨.single, "\x27\x27(:\x7b\n\x22\x27"⟩ ++ ";") =
        .ok { version := none, kind := .library "p" "\x27\x27(:\x7b\n\x22\x27", functions := [] } := by
  obtain ⟨hplace, hmodule, -⟩ := Quoted.round_trip .single "\x27\x27(:\x7b\n\x22\x27"
  have hscan : ofSource ("\x22a\x22" ++ Quoted.source ⟨.single, "\x27\x27(:\x7b\n\x22\x27"⟩ ++ ";") =
      [⟨.doubleQuote, "\x22"⟩, ⟨.literalText, "a"⟩, ⟨.doubleQuote, "\x22"⟩] ++
        [⟨.singleQuote, "\x27"⟩, ⟨.literalText, "\x27\x27\x27\x27(:\x7b\n\x22\x27\x27"⟩, ⟨.singleQuote, "\x27"⟩, ⟨.semicolon, ";"⟩] := by
    cbv
  have hbefore : Token.Literals [⟨.doubleQuote, "\x22"⟩, ⟨.literalText, "a"⟩, ⟨.doubleQuote, "\x22"⟩] :=
    .full .double (by decide) (EvenRuns.nil.cons (by decide)) .nil
  obtain ⟨body, hcut, hbody, hvalue⟩ := hplace _ _ _ _ hscan (by decide) hbefore (by decide)
  exact ⟨⟨body, hcut, hbody.trans (by decide), hvalue⟩, hmodule "p" (by decide)⟩

end QueryStubs
