import Worksheet.Grammar.Phrase

/-!
Assembling a phrase from its tokens.

The tokens are taken in one by one.  What has been read is kept as the links of
the current phrase and as the parentheses that are still open around it, so no
token is looked at twice.  Assembly accepts exactly the tokens with which phrases
are written.
-/

namespace Worksheet.Grammar

structure Link where
  minuses : Nat
  primary : Primary
  operator : Operator

/-- The phrase after links of which the last comes first. -/
def Phrase.attach (links : List Link) (phrase : Phrase) : Phrase :=
  links.foldl (fun rest link => .more link.minuses link.primary link.operator rest) phrase

/-- What stands before an open parenthesis in its own phrase. -/
structure Opened where
  links : List Link
  minuses : Nat

/-- The end of the part of a phrase that has been read. -/
inductive Pending where
  /-- Minuses, whose operand is still to come. -/
  | minuses (count : Nat)
  /-- An operand, which may or may not be the last one. -/
  | operand (minuses : Nat) (primary : Primary)

namespace Phrase

/-- Reads on from inside the opened parentheses, the innermost first. -/
def assemble? (opened : List Opened) (links : List Link) :
    Pending → List Token → Option Phrase
  | .minuses count, .negation :: tokens =>
      assemble? opened links (.minuses (count + 1)) tokens
  | .minuses count, .number text :: tokens =>
      assemble? opened links (.operand count (.number text)) tokens
  | .minuses count, .name text :: tokens =>
      assemble? opened links (.operand count (.name text)) tokens
  | .minuses count, .opening :: tokens =>
      assemble? (⟨links, count⟩ :: opened) [] (.minuses 0) tokens
  | .operand minuses primary, .infixed operator :: tokens =>
      assemble? opened (⟨minuses, primary, operator⟩ :: links) (.minuses 0) tokens
  | .operand minuses primary, .closing :: tokens =>
      match opened with
      | [] => none
      | outer :: opened =>
          assemble? opened outer.links
            (.operand outer.minuses (.parentheses (attach links (.last minuses primary)))) tokens
  | .operand minuses primary, [] =>
      if opened.isEmpty then some (attach links (.last minuses primary)) else none
  | _, _ => none

/-- The phrase of the tokens, if they alternate as they should and every
parenthesis is closed. -/
def ofTokens? (tokens : List Token) : Option Phrase :=
  assemble? [] [] (.minuses 0) tokens

end Phrase

def Link.tokens (link : Link) : List Token :=
  List.replicate link.minuses .negation ++ link.primary.tokens ++ [.infixed link.operator]

def Pending.tokens : Pending → List Token
  | .minuses count => List.replicate count .negation
  | .operand count primary => List.replicate count .negation ++ primary.tokens

namespace Phrase

/-! ### Phrases are read as they are written -/

theorem assemble?_negations (opened : List Opened) (links : List Link) (count more : Nat)
    (tokens : List Token) :
    assemble? opened links (.minuses count) (List.replicate more .negation ++ tokens) =
      assemble? opened links (.minuses (count + more)) tokens := by
  induction more generalizing count with
  | zero => rfl
  | succ more inductionHypothesis =>
      rw [List.replicate_succ, List.cons_append, assemble?, inductionHypothesis,
        Nat.add_right_comm, Nat.add_assoc]

mutual

theorem assemble?_primary (primary : Primary) (opened : List Opened) (links : List Link)
    (count : Nat) (rest : List Token) :
    assemble? opened links (.minuses count) (primary.tokens ++ rest) =
      assemble? opened links (.operand count primary) rest := by
  cases primary with
  | number text => rw [Primary.tokens, List.cons_append, List.nil_append, assemble?]
  | name text => rw [Primary.tokens, List.cons_append, List.nil_append, assemble?]
  | parentheses content =>
      rw [Primary.tokens, List.cons_append, List.append_assoc, assemble?]
      exact assemble?_closing content ⟨links, count⟩ opened [] rest

theorem assemble?_closing (phrase : Phrase) (outer : Opened) (opened : List Opened)
    (links : List Link) (rest : List Token) :
    assemble? (outer :: opened) links (.minuses 0) (phrase.tokens ++ ([.closing] ++ rest)) =
      assemble? opened outer.links
        (.operand outer.minuses (.parentheses (attach links phrase))) rest := by
  cases phrase with
  | last minuses primary =>
      rw [tokens, List.append_assoc, assemble?_negations, assemble?_primary, Nat.zero_add,
        List.cons_append, List.nil_append, assemble?]
  | more minuses primary operator tail =>
      rw [tokens, List.append_assoc, List.append_assoc, assemble?_negations, assemble?_primary,
        Nat.zero_add, List.cons_append, assemble?, assemble?_closing]
      rfl

end

theorem assemble?_all (phrase : Phrase) (links : List Link) :
    assemble? [] links (.minuses 0) phrase.tokens = some (attach links phrase) := by
  cases phrase with
  | last minuses primary =>
      rw [tokens, assemble?_negations, ← List.append_nil primary.tokens, assemble?_primary,
        Nat.zero_add, assemble?]
      rfl
  | more minuses primary operator rest =>
      rw [tokens, List.append_assoc, assemble?_negations, assemble?_primary, Nat.zero_add,
        assemble?, assemble?_all]
      rfl

theorem ofTokens?_tokens (phrase : Phrase) : ofTokens? phrase.tokens = some phrase :=
  assemble?_all phrase []

/-- The tokens behind which a reading has come to links. -/
def tokensBefore (opened : List Opened) (links : List Link) : List Token :=
  opened.reverse.flatMap (fun outer =>
      outer.links.reverse.flatMap Link.tokens ++
        List.replicate outer.minuses .negation ++ [.opening]) ++
    links.reverse.flatMap Link.tokens

theorem tokens_attach (links : List Link) (phrase : Phrase) :
    (attach links phrase).tokens = links.reverse.flatMap Link.tokens ++ phrase.tokens := by
  induction links generalizing phrase with
  | nil => rfl
  | cons link rest inductionHypothesis =>
      rw [attach, List.foldl_cons, ← attach, inductionHypothesis]
      simp [tokens, Link.tokens]

theorem tokens_of_assemble? {opened : List Opened} {links : List Link} {pending : Pending}
    {tokens : List Token} {phrase : Phrase}
    (found : assemble? opened links pending tokens = some phrase) :
    tokensBefore opened links ++ pending.tokens ++ tokens = phrase.tokens := by
  fun_induction assemble? opened links pending tokens with
  | case1 opened links count tokens inductionHypothesis =>
      rw [← inductionHypothesis found, Pending.tokens, Pending.tokens, List.replicate_succ']
      simp only [List.append_assoc, List.singleton_append]
  | case2 opened links count text tokens inductionHypothesis
  | case3 opened links count text tokens inductionHypothesis =>
      rw [← inductionHypothesis found, Pending.tokens, Pending.tokens, Primary.tokens]
      simp only [List.append_assoc, List.singleton_append]
  | case4 opened links count tokens inductionHypothesis =>
      rw [← inductionHypothesis found, Pending.tokens, Pending.tokens, tokensBefore, tokensBefore]
      simp only [List.reverse_cons, List.flatMap_append, List.flatMap_cons, List.flatMap_nil,
        List.reverse_nil, List.replicate_zero, List.append_nil, List.append_assoc,
        List.singleton_append]
  | case5 opened links minuses primary operator tokens inductionHypothesis =>
      rw [← inductionHypothesis found, Pending.tokens, Pending.tokens, tokensBefore, tokensBefore]
      simp only [List.reverse_cons, List.flatMap_append, List.flatMap_cons, List.flatMap_nil,
        Link.tokens, List.replicate_zero, List.append_nil, List.append_assoc,
        List.singleton_append]
  | case7 links minuses primary tokens outer opened inductionHypothesis =>
      rw [← inductionHypothesis found, Pending.tokens, Pending.tokens, Primary.tokens,
        tokens_attach, Phrase.tokens, tokensBefore, tokensBefore]
      simp only [List.reverse_cons, List.flatMap_append, List.flatMap_cons, List.flatMap_nil,
        List.append_nil, List.append_assoc, List.nil_append, List.cons_append]
  | case8 opened links minuses primary whole =>
      cases found
      rw [List.isEmpty_iff.mp whole, tokens_attach, Phrase.tokens, Pending.tokens, List.append_nil]
      rfl
  | case6 | case9 | case10 => cases found

/-- Reading accepts the tokens of phrases and nothing else. -/
theorem ofTokens?_eq_some_iff {tokens : List Token} {phrase : Phrase} :
    ofTokens? tokens = some phrase ↔ tokens = phrase.tokens :=
  ⟨fun found => tokens_of_assemble? found, fun same => same ▸ ofTokens?_tokens phrase⟩

end Phrase

end Worksheet.Grammar
