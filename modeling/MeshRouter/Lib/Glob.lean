import Mathlib.Data.List.Forall2
import Mathlib.Data.List.Infix

/-!
# Glob patterns

`fnmatch.fnmatchcase`: `*` matches any sequence of characters, `?` any one character, `[seq]` one
character of `seq` and `[!seq]` one that is not in it; every other character matches itself. A
pattern is translated to tokens, and the tokens are matched from the left.

The second half is about texts that a separator divides into segments. A wildcard token knows
nothing of the separator, so that a wildcard segment stands for one or more segments (`Spans`), and
not for exactly one (`SegmentMatch`): `matches_joined` and `spans_and_length_iff` say how the two
readings differ.
-/

namespace MeshRouter.Lib.Glob

/-! ## Tokens -/

/-- A token of a pattern: any sequence, or one element that is accepted. -/
inductive Token (α : Type) where
  | star
  | one (accepts : α → Bool)

section Tokens

variable {α : Type}

/-- The tokens match the whole text. -/
def globMatch : List (Token α) → List α → Bool
  | [], text => text.isEmpty
  | .star :: tokens, text => text.tails.any (globMatch tokens)
  | .one accepts :: tokens, text =>
    match text with
    | [] => false
    | c :: rest => accepts c && globMatch tokens rest

variable {tokens : List (Token α)} {text : List α} {accepts : α → Bool}

@[simp]
theorem globMatch_nil : globMatch ([] : List (Token α)) text = true ↔ text = [] :=
  List.isEmpty_iff

/-- A star takes any front part of the text. -/
theorem globMatch_star :
    globMatch (.star :: tokens) text = true ↔
      ∃ front back, text = front ++ back ∧ globMatch tokens back = true := by
  rw [globMatch, List.any_eq_true]
  simp only [List.mem_tails]
  constructor
  · rintro ⟨back, ⟨front, rfl⟩, h⟩
    exact ⟨front, back, rfl, h⟩
  · rintro ⟨front, back, rfl, h⟩
    exact ⟨back, ⟨front, rfl⟩, h⟩

/-- One element is taken from the text. -/
theorem globMatch_one :
    globMatch (.one accepts :: tokens) text = true ↔
      ∃ c rest, text = c :: rest ∧ accepts c = true ∧ globMatch tokens rest = true := by
  cases text with
  | nil => simp [globMatch]
  | cons c rest =>
    rw [globMatch, Bool.and_eq_true]
    constructor
    · exact fun h => ⟨c, rest, rfl, h⟩
    · rintro ⟨_, _, ⟨⟩, h⟩
      exact h

variable [DecidableEq α]

/-- The token that accepts one element only. -/
def lit (c : α) : Token α := .one (· = c)

/-- A literal part of a pattern is a literal front part of the text. -/
theorem globMatch_literal {l : List α} :
    globMatch (l.map lit ++ tokens) text = true ↔
      ∃ back, text = l ++ back ∧ globMatch tokens back = true := by
  induction l generalizing text with
  | nil => simp
  | cons c l ih =>
    rw [List.map_cons, List.cons_append, lit, globMatch_one]
    simp only [ih, decide_eq_true_eq]
    constructor
    · rintro ⟨_, _, rfl, rfl, back, rfl, h⟩
      exact ⟨back, rfl, h⟩
    · rintro ⟨back, rfl, h⟩
      exact ⟨c, l ++ back, rfl, rfl, back, rfl, h⟩

/-- A literal last token is the last element of the text. -/
theorem globMatch_concat {c : α} :
    globMatch (tokens ++ [lit c]) (text ++ [c]) = true ↔ globMatch tokens text = true := by
  -- The last token needs an element.
  have hnil : ∀ tokens : List (Token α), ¬ globMatch (tokens ++ [lit c]) [] = true := by
    intro tokens
    induction tokens with
    | nil => simp [lit, globMatch]
    | cons token tokens ih =>
      cases token with
      | star =>
        rw [List.cons_append, globMatch_star]
        rintro ⟨front, back, h, hmatch⟩
        rw [(List.append_eq_nil_iff.mp h.symm).2] at hmatch
        exact ih hmatch
      | one accepts =>
        rw [List.cons_append, globMatch_one]
        rintro ⟨_, _, h, -⟩
        cases h
  induction tokens generalizing text with
  | nil =>
    rw [List.nil_append, lit, globMatch_one]
    cases text with
    | nil => simp
    | cons d text => simp
  | cons token tokens ih =>
    rw [List.cons_append]
    cases token with
    | star =>
      rw [globMatch_star, globMatch_star]
      constructor
      · rintro ⟨front, back, h, hmatch⟩
        rcases List.eq_nil_or_concat' back with rfl | ⟨back, d, rfl⟩
        · exact absurd hmatch (hnil tokens)
        · rw [← List.append_assoc] at h
          obtain ⟨rfl, hd⟩ := List.append_inj' h rfl
          obtain rfl := (List.cons.inj hd).1
          exact ⟨front, back, rfl, ih.mp hmatch⟩
      · rintro ⟨front, back, rfl, hmatch⟩
        exact ⟨front, back ++ [c], by rw [List.append_assoc], ih.mpr hmatch⟩
    | one accepts =>
      rw [globMatch_one, globMatch_one]
      cases text with
      | nil =>
        constructor
        · rintro ⟨d, rest, h, -, hmatch⟩
          obtain ⟨-, rfl⟩ := List.cons.inj h
          exact absurd hmatch (hnil tokens)
        · rintro ⟨_, _, h, -⟩
          cases h
      | cons d text =>
        constructor
        · rintro ⟨_, _, ⟨⟩, haccepts, hmatch⟩
          exact ⟨d, text, rfl, haccepts, ih.mp hmatch⟩
        · rintro ⟨_, _, ⟨⟩, haccepts, hmatch⟩
          exact ⟨d, text ++ [c], rfl, haccepts, ih.mpr hmatch⟩

end Tokens

/-! ## Segments -/

section Segments

variable {α : Type} {sep : α}

/-- The segments, each followed by the separator. -/
def joined (sep : α) (segments : List (List α)) : List α := segments.flatMap (· ++ [sep])

/-- A pattern in segments matches a text in segments when each wildcard, `none`, stands for one or
more of them, and each literal for itself. -/
inductive Spans : List (Option (List α)) → List (List α) → Prop where
  | nil : Spans [] []
  | literal {l : List α} {pattern : List (Option (List α))} {topic : List (List α)} :
      Spans pattern topic → Spans (some l :: pattern) (l :: topic)
  | wildcard {front topic : List (List α)} {pattern : List (Option (List α))} :
      front ≠ [] → Spans pattern topic → Spans (none :: pattern) (front ++ topic)

/-- The pattern has as many segments as the text, and each literal is the segment at its place. -/
def SegmentMatch (pattern : List (Option (List α))) (topic : List (List α)) : Prop :=
  List.Forall₂ (fun p segment => ∀ l ∈ p, l = segment) pattern topic

theorem joined_cons (s : List α) (segments : List (List α)) :
    joined sep (s :: segments) = s ++ sep :: joined sep segments := by
  rw [joined, List.flatMap_cons, List.append_assoc]
  rfl

/-- The joined segments are the text with a separator at its end. -/
theorem joined_splitOn [BEq α] [LawfulBEq α] (text : List α) :
    joined sep (text.splitOn sep) = text ++ [sep] := by
  have hjoin : ∀ s segments, joined sep (s :: segments) =
      [sep].intercalate (s :: segments) ++ [sep] := by
    intro s segments
    induction segments generalizing s with
    | nil => simp [joined]
    | cons s' segments ih =>
      rw [joined_cons, ih]
      simp
  obtain ⟨s, segments, hsplit⟩ := List.exists_cons_of_ne_nil (List.splitOn_ne_nil sep text)
  rw [hsplit, hjoin, ← hsplit, List.intercalate_splitOn]

/-- No segment of a text has a separator. -/
theorem notMem_of_mem_splitOn [BEq α] [LawfulBEq α] {text s : List α}
    (h : s ∈ text.splitOn sep) : sep ∉ s := by
  induction text generalizing s with
  | nil =>
    rw [List.splitOn_nil, List.mem_singleton] at h
    rw [h]
    exact List.not_mem_nil
  | cons c text ih =>
    rw [List.splitOn_cons_eq_if_modifyHead] at h
    split_ifs at h with hc
    · rcases List.mem_cons.mp h with rfl | h
      · exact List.not_mem_nil
      · exact ih h
    · obtain ⟨s', segments, hsplit⟩ := List.exists_cons_of_ne_nil (List.splitOn_ne_nil sep text)
      rw [hsplit, List.modifyHead_cons, List.mem_cons] at h
      rcases h with rfl | h
      · have hs' : sep ∉ s' := ih (hsplit ▸ List.mem_cons_self)
        have hne : sep ≠ c := fun heq => hc (by simp [heq])
        simp [hne, hs']
      · exact ih (hsplit ▸ List.mem_cons_of_mem _ h)

/-- Where joined segments can be divided at a separator: after some of the segments. -/
theorem joined_eq_append_sep {segments : List (List α)} (hsep : ∀ s ∈ segments, sep ∉ s)
    {x y : List α} :
    joined sep segments = x ++ sep :: y ↔
      ∃ front back, front ≠ [] ∧ segments = front ++ back ∧ joined sep front = x ++ [sep] ∧
        joined sep back = y := by
  constructor
  · intro h
    induction segments generalizing x with
    | nil => simp [joined] at h
    | cons s segments ih =>
      obtain ⟨hs, hsegments⟩ := List.forall_mem_cons.mp hsep
      rw [joined_cons] at h
      rcases List.append_eq_append_iff.mp h with ⟨a, rfl, ha⟩ | ⟨c, rfl, hc⟩
      · cases a with
        | nil =>
          obtain ⟨-, hy⟩ := List.cons.inj ha
          exact ⟨[s], segments, by simp, rfl, by simp [joined], hy⟩
        | cons d a =>
          -- The separator after `s` is inside `x`.
          obtain ⟨rfl, htail⟩ := List.cons.inj ha
          obtain ⟨front, back, -, rfl, hfront, hback⟩ := ih hsegments htail
          exact ⟨s :: front, back, by simp, rfl, by simp [joined_cons, hfront], hback⟩
      · cases c with
        | nil =>
          obtain ⟨-, hy⟩ := List.cons.inj hc
          exact ⟨[x], segments, by simp, by simp, by simp [joined], hy.symm⟩
        | cons d c =>
          obtain ⟨rfl, -⟩ := List.cons.inj hc
          simp at hs
  · rintro ⟨front, back, -, rfl, hfront, rfl⟩
    rw [joined, List.flatMap_append, ← joined, ← joined, hfront, List.append_assoc]
    rfl

/-- A first segment without separator is the first of the segments. -/
theorem joined_eq_literal {segments : List (List α)} (hsep : ∀ s ∈ segments, sep ∉ s) {l y : List α}
    (hl : sep ∉ l) :
    joined sep segments = l ++ sep :: y ↔ ∃ rest, segments = l :: rest ∧ joined sep rest = y := by
  rw [joined_eq_append_sep hsep]
  constructor
  · rintro ⟨front, back, hne, rfl, hfront, hback⟩
    obtain ⟨s, front, rfl⟩ := List.exists_cons_of_ne_nil hne
    rw [joined_cons] at hfront
    rcases List.append_eq_append_iff.mp hfront with ⟨a, rfl, ha⟩ | ⟨c, rfl, hc⟩
    · cases a with
      | nil =>
        have hnil : front = [] := by
          cases front with
          | nil => rfl
          | cons s' front => simp [joined_cons] at ha
        exact ⟨back, by simp [hnil], hback⟩
      | cons d a =>
        obtain ⟨rfl, -⟩ := List.cons.inj ha
        simp at hl
    · cases c with
      | nil =>
        have hnil : front = [] := by
          cases front with
          | nil => rfl
          | cons s' front => simp [joined_cons] at hc
        exact ⟨back, by simp [hnil], hback⟩
      | cons d c =>
        obtain ⟨rfl, -⟩ := List.cons.inj hc
        have := hsep (l ++ sep :: c) (by simp)
        simp at this
  · rintro ⟨rest, rfl, rfl⟩
    exact ⟨[l], rest, by simp, rfl, by simp [joined], rfl⟩

/-- The tokens of a segment. -/
def segmentTokens [DecidableEq α] : Option (List α) → List (Token α)
  | none => [.star]
  | some l => l.map lit

/-- The tokens of a pattern in segments, each followed by the separator. -/
def joinedTokens [DecidableEq α] (sep : α) (pattern : List (Option (List α))) : List (Token α) :=
  pattern.flatMap fun p => segmentTokens p ++ [lit sep]

/-- What the tokens of a pattern in segments match: the texts in which each wildcard stands for one
or more segments. -/
theorem globMatch_joined [DecidableEq α] {pattern : List (Option (List α))}
    {topic : List (List α)} (hpattern : ∀ l, some l ∈ pattern → sep ∉ l)
    (htopic : ∀ s ∈ topic, sep ∉ s) :
    globMatch (joinedTokens sep pattern) (joined sep topic) = true ↔ Spans pattern topic := by
  induction pattern generalizing topic with
  | nil =>
    rw [joinedTokens, List.flatMap_nil, globMatch_nil]
    constructor
    · intro h
      cases topic with
      | nil => exact .nil
      | cons s topic => simp [joined_cons] at h
    · rintro ⟨⟩
      rfl
  | cons p pattern ih =>
    have hrest : ∀ l, some l ∈ pattern → sep ∉ l :=
      fun l hl => hpattern l (List.mem_cons_of_mem p hl)
    have htokens : joinedTokens sep (p :: pattern) =
        segmentTokens p ++ lit sep :: joinedTokens sep pattern := by
      rw [joinedTokens, List.flatMap_cons, List.append_assoc]
      rfl
    have hsep : ∀ {text}, globMatch (lit sep :: joinedTokens sep pattern) text = true ↔
        ∃ rest, text = sep :: rest ∧ globMatch (joinedTokens sep pattern) rest = true := by
      intro text
      simpa using globMatch_literal (l := [sep])
    rw [htokens]
    cases p with
    | some l =>
      rw [segmentTokens, globMatch_literal]
      simp only [hsep]
      constructor
      · rintro ⟨_, hjoined, y, rfl, hmatch⟩
        obtain ⟨rest, rfl, rfl⟩ :=
          (joined_eq_literal htopic (hpattern l List.mem_cons_self)).mp hjoined
        exact .literal ((ih hrest fun s hs => htopic s (List.mem_cons_of_mem l hs)).mp hmatch)
      · rintro (_ | ⟨hspans⟩)
        exact ⟨_, joined_cons _ _, _, rfl,
          (ih hrest fun s hs => htopic s (List.mem_cons_of_mem l hs)).mpr hspans⟩
    | none =>
      rw [segmentTokens, List.singleton_append, globMatch_star]
      simp only [hsep]
      constructor
      · rintro ⟨x, _, hjoined, y, rfl, hmatch⟩
        obtain ⟨front, back, hne, rfl, -, rfl⟩ := (joined_eq_append_sep htopic).mp hjoined
        exact .wildcard hne ((ih hrest fun s hs => htopic s (List.mem_append_right _ hs)).mp hmatch)
      · rintro (_ | _ | @⟨front, topic, _, hne, hspans⟩)
        have hmatch := (ih hrest fun s hs => htopic s (List.mem_append_right _ hs)).mpr hspans
        obtain ⟨first, last, rfl⟩ := (List.eq_nil_or_concat' front).resolve_left hne
        refine ⟨joined sep first ++ last, sep :: joined sep topic, ?_, _, rfl, hmatch⟩
        simp [joined]

/-- A pattern has no more segments than what it spans. -/
theorem Spans.length_le {pattern : List (Option (List α))} {topic : List (List α)}
    (h : Spans pattern topic) : pattern.length ≤ topic.length := by
  induction h with
  | nil => exact le_rfl
  | literal _ ih => exact Nat.succ_le_succ ih
  | wildcard hne _ ih =>
    have hpos := List.length_pos_iff.mpr hne
    rw [List.length_cons, List.length_append]
    omega

/-- Where the two readings agree: on a text of as many segments as the pattern. -/
theorem segmentMatch_iff {pattern : List (Option (List α))} {topic : List (List α)} :
    SegmentMatch pattern topic ↔ Spans pattern topic ∧ ¬ pattern.length < topic.length := by
  constructor
  · intro h
    refine ⟨?_, by rw [List.Forall₂.length_eq h]; exact lt_irrefl _⟩
    induction h with
    | nil => exact .nil
    | @cons p segment pattern topic hp _ ih =>
      cases p with
      | none => exact Spans.wildcard (List.cons_ne_nil segment []) ih
      | some l =>
        obtain rfl := hp l rfl
        exact .literal ih
  · rintro ⟨h, hlength⟩
    induction h with
    | nil => exact .nil
    | literal _ ih =>
      refine .cons (fun l' hl' => (Option.some.inj hl').symm) (ih ?_)
      simpa using hlength
    | @wildcard front topic pattern hne hspans ih =>
      -- A wildcard that stands for two segments leaves too few for the others.
      have hle := hspans.length_le
      rw [List.length_cons, List.length_append] at hlength
      cases front with
      | nil => exact absurd rfl hne
      | cons segment front =>
        rw [List.length_cons] at hlength
        obtain rfl : front = [] := List.length_eq_zero_iff.mp (by omega)
        exact .cons nofun (ih (by omega))

end Segments

/-! ## Patterns of characters -/

/-- The characters before the bracket that closes a class, and those after it. A bracket in first
place does not close. -/
def splitClass : List Char → Option (List Char × List Char)
  | [] => none
  | c :: cs =>
    match cs.dropWhile (· ≠ ']') with
    | [] => none
    | _ :: rest => some (c :: cs.takeWhile (· ≠ ']'), rest)

/-- The ranges of a class; a character stands for itself. -/
def classRanges : List Char → List (Char × Char)
  | c :: '-' :: d :: cs => (c, d) :: classRanges cs
  | c :: cs => (c, c) :: classRanges cs
  | [] => []

/-- The character is in the class. -/
def inClass (seq : List Char) (c : Char) : Bool :=
  (classRanges seq).any fun range => range.1 ≤ c ∧ c ≤ range.2

/-- The class after an opening bracket, and what comes after it. -/
def classToken : List Char → Option (Token Char × List Char)
  | '!' :: cs => (splitClass cs).map fun split => (.one fun c => !inClass split.1 c, split.2)
  | cs => (splitClass cs).map fun split => (.one (inClass split.1), split.2)

/-- `fnmatch.translate`. The characters of a class are skipped after its token is made; a bracket
that nothing closes is literal. -/
def translate : ℕ → List Char → List (Token Char)
  | _, [] => []
  | skip + 1, _ :: cs => translate skip cs
  | 0, c :: cs =>
    if c = '*' then
      .star :: translate 0 cs
    else if c = '?' then
      .one (fun _ => true) :: translate 0 cs
    else if c = '[' then
      match classToken cs with
      | none => lit c :: translate 0 cs
      | some (token, rest) => token :: translate (cs.length - rest.length) cs
    else
      lit c :: translate 0 cs

/-- `fnmatch.fnmatchcase`. -/
def fnmatchcase (name pattern : String) : Bool :=
  globMatch (translate 0 pattern.toList) name.toList

/-- The characters with a meaning in patterns. -/
def IsMeta (c : Char) : Prop := c = '*' ∨ c = '?' ∨ c = '[' ∨ c = ']'

instance (c : Char) : Decidable (IsMeta c) := by
  unfold IsMeta
  infer_instance

/-- The segments of a text that dots divide. -/
def segments (text : String) : List (List Char) := text.toList.splitOn '.'

/-- The segments of a pattern, with the wildcards as `none`. -/
def patternSegments (pattern : String) : List (Option (List Char)) :=
  (segments pattern).map fun s => if s = ['*'] then none else some s

/-- Each segment of the pattern is `*` or a literal. -/
def IsWildcardPattern (pattern : String) : Prop :=
  ∀ s ∈ segments pattern, s = ['*'] ∨ ∀ c ∈ s, ¬ IsMeta c

instance (pattern : String) : Decidable (IsWildcardPattern pattern) :=
  have (s : List Char) : Decidable (∀ c ∈ s, ¬ IsMeta c) := List.decidableBAll _ s
  List.decidableBAll _ (segments pattern)

/-- Without classes and single wildcards, each character is a token. -/
theorem translate_plain {cs : List Char} (h : ∀ c ∈ cs, c ≠ '[' ∧ c ≠ '?') :
    translate 0 cs = cs.map fun c => if c = '*' then .star else lit c := by
  induction cs with
  | nil => rfl
  | cons c cs ih =>
    obtain ⟨⟨hbracket, hquestion⟩, hcs⟩ := List.forall_mem_cons.mp h
    rw [translate, List.map_cons, ih hcs, if_neg hquestion, if_neg hbracket]
    split_ifs
    · rfl
    · rfl

/-- The tokens of a wildcard pattern with a dot at its end. -/
theorem translate_wildcard {pattern : String} (h : IsWildcardPattern pattern) :
    translate 0 pattern.toList ++ [lit '.'] = joinedTokens '.' (patternSegments pattern) := by
  have hjoined : joined '.' (segments pattern) = pattern.toList ++ ['.'] := joined_splitOn _
  have hplain : ∀ c ∈ pattern.toList, c ≠ '[' ∧ c ≠ '?' := by
    intro c hc
    have hmem : c ∈ joined '.' (segments pattern) := hjoined ▸ List.mem_append_left _ hc
    obtain ⟨s, hs, hc⟩ := List.mem_flatMap.mp hmem
    rcases List.mem_append.mp hc with hc | hc
    · rcases h s hs with rfl | hlit
      · obtain rfl := List.mem_singleton.mp hc
        decide
      · have hnot := hlit c hc
        simp only [IsMeta, not_or] at hnot
        exact ⟨hnot.2.2.1, hnot.2.1⟩
    · obtain rfl := List.mem_singleton.mp hc
      decide
  -- Segment by segment, with the dot after each.
  have hmap : ∀ l : List (List Char), (∀ s ∈ l, s = ['*'] ∨ ∀ c ∈ s, ¬ IsMeta c) →
      (joined '.' l).map (fun c => if c = '*' then .star else lit c) =
        joinedTokens '.' (l.map fun s => if s = ['*'] then none else some s) := by
    intro l hl
    induction l with
    | nil => rfl
    | cons s l ih =>
      obtain ⟨hs, hl⟩ := List.forall_mem_cons.mp hl
      have htokens : s.map (fun c => if c = '*' then Token.star else lit c) =
          segmentTokens (if s = ['*'] then none else some s) := by
        split_ifs with hstar
        · rw [hstar]
          rfl
        · refine List.map_congr_left fun c hc => if_neg fun heq => ?_
          exact hs.resolve_left hstar c hc (.inl heq)
      rw [joined_cons, List.map_append, List.map_cons, ih hl, htokens, joinedTokens, joinedTokens,
        List.map_cons, List.flatMap_cons, List.append_assoc]
      rfl
  rw [translate_plain hplain, patternSegments, ← hmap _ h, hjoined, List.map_append]
  rfl

/-- What a wildcard pattern matches: the texts in which each `*` stands for one or more segments. -/
theorem fnmatchcase_iff {name pattern : String} (h : IsWildcardPattern pattern) :
    fnmatchcase name pattern = true ↔ Spans (patternSegments pattern) (segments name) := by
  have hname : joined '.' (segments name) = name.toList ++ ['.'] := joined_splitOn _
  have hliteral : ∀ l, some l ∈ patternSegments pattern → '.' ∉ l := by
    intro l hl
    obtain ⟨s, hs, heq⟩ := List.mem_map.mp hl
    split_ifs at heq
    obtain rfl := Option.some.inj heq
    exact notMem_of_mem_splitOn hs
  have htopic : ∀ s ∈ segments name, '.' ∉ s := fun s hs => notMem_of_mem_splitOn hs
  rw [← globMatch_joined hliteral htopic, ← translate_wildcard h, hname, globMatch_concat,
    fnmatchcase]

end MeshRouter.Lib.Glob
