import Unpack.SideEffectsGlob
import Mathlib.Data.Char
import Mathlib.Order.Basic

/-! When the translation of a glob pattern matches the paths that the pattern denotes. A pattern of literals and
stars is translated piece by piece; any other is told apart by a shortest word that it denotes. -/

namespace Unpack.SideEffectsFlagPlugin

theorem tokens_character {character : Char} (hstar : character ≠ '*') (hany : character ≠ '?') (rest : List Char) :
    tokens (character :: rest) = .character character :: tokens rest := by
  rw [tokens] <;> simp [hstar, hany]

theorem tokens_segment {rest : List Char} (h : rest.head? ≠ some '*') :
    tokens ('*' :: rest) = .segment :: tokens rest := by
  rw [tokens]
  · rintro rest rfl
    exact h rfl
  · rintro rest rfl
    exact h rfl

theorem tokens_everything {rest : List Char} (h : rest.head? ≠ some '/') :
    tokens ('*' :: '*' :: rest) = .everything :: tokens rest := by
  rw [tokens]
  rintro rest rfl
  exact h rfl

theorem tokens_characters {characters : List Char} (h : ∀ character ∈ characters, character ≠ '*' ∧ character ≠ '?')
    (rest : List Char) : tokens (characters ++ rest) = characters.map .character ++ tokens rest := by
  induction characters with
  | nil => rfl
  | cons first characters ih =>
      obtain ⟨hstar, hany⟩ := h first List.mem_cons_self
      rw [List.cons_append, tokens_character hstar hany, ih fun character hcharacter =>
        h character (List.mem_cons_of_mem first hcharacter)]
      rfl

namespace Piece

variable {piece : Piece} {pieces : List Piece} {segmentStart : Bool} {rest : List Char}

def tokens : Piece → List Token
  | literal character => [.character character]
  | star => [.segment]
  | globstar => [.directories]
  | deep => [.everything]
  | any => [.segmentCharacter]
  | characterClass ranges => (characterClass ranges).text.map .character

theorem plain_of_notMem_special {character : Char} (h : character ∉ special) : character ≠ '*' ∧ character ≠ '?' :=
  ⟨fun hstar => h (hstar ▸ by decide), fun hany => h (hany ▸ by decide)⟩

theorem plain_of_notMem_class {character : Char} (h : character ∉ '-' :: ',' :: special) :
    character ≠ '*' ∧ character ≠ '?' :=
  plain_of_notMem_special fun hspecial => h (List.mem_cons_of_mem _ (List.mem_cons_of_mem _ hspecial))

theorem Fits.class_text {ranges : List (Char × Option Char)} (h : (characterClass ranges).Fits segmentStart) :
    ∀ character ∈ (characterClass ranges).text, character ≠ '*' ∧ character ≠ '?' := by
  intro character hcharacter
  rw [text, List.cons_append, List.mem_cons, List.mem_append, List.mem_flatMap, List.mem_singleton] at hcharacter
  rcases hcharacter with rfl | ⟨⟨first, last⟩, hrange, hmem⟩ | rfl
  · decide
  · obtain ⟨hfirst, hlast⟩ := h.2 _ hrange
    cases last with
    | none =>
        rw [List.mem_singleton.mp hmem]
        exact plain_of_notMem_class hfirst
    | some last =>
        rcases List.mem_cons.mp hmem with rfl | hmem
        · exact plain_of_notMem_class hfirst
        · rcases List.mem_pair.mp hmem with rfl | rfl
          · decide
          · exact plain_of_notMem_class (hlast _ rfl).2
  · decide

theorem tokens_text (h : piece.Fits segmentStart) (hstar : piece = star → rest.head? ≠ some '*')
    (hdeep : piece = deep → rest.head? ≠ some '/') :
    SideEffectsFlagPlugin.tokens (piece.text ++ rest) = piece.tokens ++ SideEffectsFlagPlugin.tokens rest := by
  cases piece with
  | literal character =>
      obtain ⟨hnotStar, hnotAny⟩ := plain_of_notMem_special h
      exact tokens_character hnotStar hnotAny rest
  | star => exact tokens_segment (hstar rfl)
  | globstar => rfl
  | deep => exact tokens_everything (hdeep rfl)
  | any => rfl
  | characterClass ranges => exact tokens_characters h.class_text rest

theorem head?_text (h : piece.Fits segmentStart) (hopens : piece.opensStar = false) :
    (piece.text ++ rest).head? ≠ some '*' := by
  cases piece with
  | literal character =>
      intro hhead
      exact (plain_of_notMem_special h).1 (Option.some.inj hhead)
  | star => cases hopens
  | globstar => cases hopens
  | deep => cases hopens
  | any => exact nofun
  | characterClass ranges => exact nofun

theorem head?_texts (h : Readable segmentStart pieces) (hnext : ∀ next ∈ pieces.head?, next.opensStar = false)
    (hrest : rest.head? ≠ some '*') : (pieces.flatMap text ++ rest).head? ≠ some '*' := by
  cases pieces with
  | nil => exact hrest
  | cons next pieces =>
      rw [List.flatMap_cons, List.append_assoc]
      exact head?_text h.1 (hnext next rfl)

theorem tokens_texts (h : Readable segmentStart pieces) (hstar : rest.head? ≠ some '*')
    (hdeep : ∀ piece ∈ pieces, piece = deep → rest.head? ≠ some '/') :
    SideEffectsFlagPlugin.tokens (pieces.flatMap text ++ rest) =
      pieces.flatMap tokens ++ SideEffectsFlagPlugin.tokens rest := by
  induction pieces generalizing segmentStart with
  | nil => rfl
  | cons first pieces ih =>
      obtain ⟨hfits, hnext, hlast, hreadable⟩ := h
      rw [List.flatMap_cons, List.append_assoc, tokens_text hfits, ih hreadable fun piece hpiece =>
        hdeep piece (List.mem_cons_of_mem first hpiece), List.flatMap_cons, List.append_assoc]
      · exact fun heq => head?_texts hreadable (hnext heq) hstar
      · intro heq
        rw [hlast heq]
        exact hdeep first List.mem_cons_self heq

end Piece

namespace Item

variable {items : List Item} {segmentStart : Bool}

def tokens : Item → List Token
  | single piece => piece.tokens
  | braces alternatives => .character '{' ::
      List.intercalate [.character ','] (alternatives.map fun alternative => alternative.flatMap Piece.tokens) ++
        [.character '}']

theorem tokens_alternatives {alternatives : List (List Piece)} (h : ∀ alternative ∈ alternatives,
      Piece.Readable false alternative ∧ ∀ piece ∈ alternative, piece ≠ .deep ∧ piece ≠ .literal ',')
    (rest : List Char) :
    SideEffectsFlagPlugin.tokens
        (List.intercalate [','] (alternatives.map fun alternative => alternative.flatMap Piece.text) ++ '}' :: rest) =
      List.intercalate [.character ','] (alternatives.map fun alternative => alternative.flatMap Piece.tokens) ++
        .character '}' :: SideEffectsFlagPlugin.tokens rest := by
  have hclose : SideEffectsFlagPlugin.tokens ('}' :: rest) = .character '}' :: SideEffectsFlagPlugin.tokens rest :=
    tokens_character (by decide) (by decide) rest
  induction alternatives with
  | nil => exact hclose
  | cons first alternatives ih =>
      obtain ⟨hreadable, hpieces⟩ := h first List.mem_cons_self
      have hrest := ih fun alternative halternative => h alternative (List.mem_cons_of_mem first halternative)
      have hdeep : ∀ follow : List Char, ∀ piece ∈ first, piece = .deep → follow.head? ≠ some '/' :=
        fun follow piece hpiece heq => absurd heq (hpieces piece hpiece).1
      have hcomma : ∀ follow : List Char, (',' :: follow).head? ≠ some '*' := fun _ => by simp
      have hbrace : ∀ follow : List Char, ('}' :: follow).head? ≠ some '*' := fun _ => by simp
      cases alternatives with
      | nil =>
          rw [List.map_singleton, List.map_singleton, List.intercalate_singleton, List.intercalate_singleton,
            Piece.tokens_texts hreadable (hbrace _) (hdeep _), hclose]
      | cons second alternatives =>
          rw [List.map_cons, List.map_cons, List.map_cons, List.map_cons, List.intercalate_cons_cons,
            List.intercalate_cons_cons, List.append_assoc, List.append_assoc, List.append_assoc, List.append_assoc,
            List.singleton_append, Piece.tokens_texts hreadable (hcomma _) (hdeep _),
            tokens_character (by decide) (by decide), ← List.map_cons, hrest]
          rfl

theorem tokens_texts (h : Readable segmentStart items) :
    SideEffectsFlagPlugin.tokens (items.flatMap text) = items.flatMap tokens := by
  induction items generalizing segmentStart with
  | nil => rfl
  | cons first items ih =>
      rw [List.flatMap_cons, List.flatMap_cons]
      cases first with
      | single piece =>
          obtain ⟨hfits, hnext, hlast, hreadable⟩ := h
          rw [← ih hreadable]
          refine Piece.tokens_text hfits (fun heq => ?_) fun heq => ?_
          · cases items with
            | nil => exact nofun
            | cons second items =>
                cases second with
                | single next =>
                    rw [List.flatMap_cons]
                    exact Piece.head?_text hreadable.1 (hnext heq next rfl)
                | braces alternatives => exact fun hhead => by cases Option.some.inj hhead
          · rw [hlast heq]
            exact nofun
      | braces alternatives =>
          obtain ⟨_, halternatives, hreadable⟩ := h
          rw [← ih hreadable, text, tokens, List.append_assoc, List.append_assoc, List.cons_append, List.cons_append,
            List.nil_append, tokens_character (by decide) (by decide), tokens_alternatives halternatives]
          rfl

end Item

namespace Piece

variable {piece : Piece} {pieces : List Piece} {segmentStart : Bool} {word : List Char}

/-- What the translation knows. -/
def plain : Piece → Bool
  | literal _ | star | globstar | deep => true
  | any | characterClass _ => false

/-- The pieces that end in a dot and a star. -/
def dotted : Piece → Bool
  | globstar | deep => true
  | _ => false

/-- A word that the tokens match is denoted, whatever the word is. -/
theorem matches_of_tokens (hplain : ∀ piece ∈ pieces, piece.plain = true)
    (h : Sequence.Matches Token.accepts (pieces.flatMap tokens) word) : Sequence.Matches accepts pieces word := by
  induction pieces generalizing word with
  | nil => exact h
  | cons first pieces ih =>
      have hfirst := hplain first List.mem_cons_self
      have hrest := fun {rest : List Char} => @ih rest fun piece hpiece =>
        hplain piece (List.mem_cons_of_mem first hpiece)
      cases first with
      | literal character =>
          obtain ⟨taken, rest, hword, haccepts, hmatches⟩ := h
          exact ⟨taken, rest, hword, haccepts, hrest hmatches⟩
      | star =>
          obtain ⟨taken, rest, hword, haccepts, hmatches⟩ := h
          exact ⟨taken, rest, hword, haccepts, hrest hmatches⟩
      | globstar =>
          obtain ⟨taken, rest, hword, haccepts, hmatches⟩ := h
          exact ⟨taken, rest, hword, haccepts.imp_right fun hsegments => Or.inl hsegments.2, hrest hmatches⟩
      | deep =>
          obtain ⟨taken, rest, hword, _, hmatches⟩ := h
          exact ⟨taken, rest, hword, trivial, hrest hmatches⟩
      | any => cases hfirst
      | characterClass ranges => cases hfirst

/-- A path is cut before its last segment. -/
theorem exists_lastSegment (path : List Char) : ∃ directories segment, directories ++ segment = path ∧
    (directories = [] ∨ directories.getLast? = some '/') ∧ '/' ∉ segment := by
  induction path using List.reverseRecOn with
  | nil => exact ⟨[], [], rfl, Or.inl rfl, List.not_mem_nil⟩
  | append_singleton path last ih =>
      obtain ⟨directories, segment, hpath, hdirectories, hsegment⟩ := ih
      by_cases hslash : last = '/'
      · refine ⟨path ++ [last], [], List.append_nil _, Or.inr ?_, List.not_mem_nil⟩
        rw [List.getLast?_concat, hslash]
      · refine ⟨directories, segment ++ [last], ?_, hdirectories, ?_⟩
        · rw [← List.append_assoc, hpath]
        · rw [List.mem_append, List.mem_singleton]
          exact fun hmem => hmem.elim hsegment fun heq => hslash heq.symm

/-- Pieces that match nothing at the end of a path match the last segment there too, but for a `**/` at the end. -/
theorem tokens_of_nullable (hplain : ∀ piece ∈ pieces, piece.plain = true) (hreadable : Readable segmentStart pieces)
    (hsome : pieces ≠ []) (hlast : pieces.getLast? ≠ some globstar) (hnullable : Sequence.Matches accepts pieces [])
    (hsegment : '/' ∉ word) (hline : '\n' ∉ word) :
    Sequence.Matches Token.accepts (pieces.flatMap tokens) word := by
  induction pieces generalizing segmentStart with
  | nil => exact absurd rfl hsome
  | cons first pieces ih =>
      obtain ⟨_, hnext, hdeep, hrest⟩ := hreadable
      obtain ⟨taken, rest, hnothing, haccepts, hmatches⟩ := hnullable
      obtain ⟨rfl, rfl⟩ := List.append_eq_nil_iff.mp hnothing
      cases pieces with
      | nil =>
          cases first with
          | literal character => cases haccepts
          | star => exact Sequence.Matches.singleton hsegment
          | globstar => exact absurd rfl hlast
          | deep => exact Sequence.Matches.singleton hline
          | any => cases hplain _ List.mem_cons_self
          | characterClass ranges => cases hplain _ List.mem_cons_self
      | cons second pieces =>
          have hplainRest : ∀ piece ∈ second :: pieces, piece.plain = true := fun piece hpiece =>
            hplain piece (List.mem_cons_of_mem first hpiece)
          cases first with
          | literal character => cases haccepts
          | star =>
              -- what follows a star is a literal, which does not match nothing
              have hopens := hnext rfl second rfl
              obtain ⟨taken, rest, hnothing, haccepts, _⟩ := hmatches
              obtain ⟨rfl, rfl⟩ := List.append_eq_nil_iff.mp hnothing
              cases second with
              | literal character => cases haccepts
              | any => cases hplainRest _ List.mem_cons_self
              | characterClass ranges => cases hplainRest _ List.mem_cons_self
              | star => cases hopens
              | globstar => cases hopens
              | deep => cases hopens
          | globstar =>
              rw [List.getLast?_cons_cons] at hlast
              exact ⟨[], word, rfl, Or.inl rfl, ih hplainRest hrest (List.cons_ne_nil _ _) hlast hmatches⟩
          | deep => cases hdeep rfl
          | any => cases hplain _ List.mem_cons_self
          | characterClass ranges => cases hplain _ List.mem_cons_self

/-- A word that is denoted is matched by the tokens when it has no line feed or none of them is a dot. -/
theorem tokens_of_matches (hplain : ∀ piece ∈ pieces, piece.plain = true) (hreadable : Readable segmentStart pieces)
    (hlast : pieces.getLast? ≠ some globstar) (hline : '\n' ∉ word ∨ ∀ piece ∈ pieces, piece.dotted = false)
    (h : Sequence.Matches accepts pieces word) : Sequence.Matches Token.accepts (pieces.flatMap tokens) word := by
  induction pieces generalizing segmentStart word with
  | nil => exact h
  | cons first pieces ih =>
      obtain ⟨_, _, hdeep, hrest⟩ := hreadable
      obtain ⟨taken, rest, rfl, haccepts, hmatches⟩ := h
      have hplainRest : ∀ piece ∈ pieces, piece.plain = true := fun piece hpiece =>
        hplain piece (List.mem_cons_of_mem first hpiece)
      have hlastRest : pieces.getLast? ≠ some globstar := by
        intro heq
        rw [List.getLast?_cons, heq] at hlast
        exact hlast rfl
      have hlineTaken : first.dotted = true → '\n' ∉ taken := by
        intro hdotted
        rcases hline with hline | hnone
        · exact fun hmem => hline (List.mem_append_left rest hmem)
        · rw [hnone first List.mem_cons_self] at hdotted
          cases hdotted
      have hlineRest := hline.imp (fun hline hmem => hline (List.mem_append_right taken hmem))
        fun hnone piece hpiece => hnone piece (List.mem_cons_of_mem first hpiece)
      have hmatched := ih hplainRest hrest hlastRest hlineRest hmatches
      cases first with
      | literal character => exact ⟨taken, rest, rfl, haccepts, hmatched⟩
      | star => exact ⟨taken, rest, rfl, haccepts, hmatched⟩
      | globstar =>
          rcases haccepts with hnothing | hslash | hend
          · exact ⟨taken, rest, rfl, Or.inl hnothing, hmatched⟩
          · exact ⟨taken, rest, rfl, Or.inr ⟨hlineTaken rfl, hslash⟩, hmatched⟩
          · -- the path ends within the segments: what follows takes the last of them
            subst hend
            obtain ⟨directories, segment, rfl, hdirectories, hsegment⟩ := exists_lastSegment taken
            have hline := hlineTaken rfl
            rw [List.mem_append, not_or] at hline
            have hsome : pieces ≠ [] := by
              rintro rfl
              exact hlast rfl
            refine ⟨directories, segment, (List.append_nil _).symm, ?_,
              tokens_of_nullable hplainRest hrest hsome hlastRest hmatches hsegment hline.2⟩
            exact hdirectories.imp_right fun hslash => ⟨hline.1, hslash⟩
      | deep => exact ⟨taken, rest, rfl, hlineTaken rfl, hmatched⟩
      | any => cases hplain _ List.mem_cons_self
      | characterClass ranges => cases hplain _ List.mem_cons_self

end Piece

/-- The number of characters that a part takes at least. -/
def Token.least : Token → Nat
  | segmentCharacter | character _ => 1
  | _ => 0

theorem Token.least_le (token : Token) (taken rest : List Char) (h : token.accepts taken rest) :
    token.least ≤ taken.length := by
  cases token with
  | segmentCharacter => exact h.1.ge
  | character expected => exact (congrArg List.length h).ge
  | currentDirectory => exact Nat.zero_le _
  | directories => exact Nat.zero_le _
  | everything => exact Nat.zero_le _
  | segment => exact Nat.zero_le _

def leastLength (tokens : List Token) : Nat := (tokens.map Token.least).sum

@[simp] theorem leastLength_append (first second : List Token) :
    leastLength (first ++ second) = leastLength first + leastLength second := by
  rw [leastLength, List.map_append, List.sum_append]
  rfl

@[simp] theorem leastLength_cons (token : Token) (tokens : List Token) :
    leastLength (token :: tokens) = token.least + leastLength tokens := List.sum_cons

theorem leastLength_characters (characters : List Char) :
    leastLength (characters.map .character) = characters.length := by
  induction characters with
  | nil => rfl
  | cons first characters ih =>
      rw [List.map_cons, leastLength_cons, ih, List.length_cons, Nat.add_comm]
      rfl

theorem leastLength_le {tokens : List Token} {word : List Char} (h : Sequence.Matches Token.accepts tokens word) :
    leastLength tokens ≤ word.length := h.le_length Token.least_le

theorem matches_append {first second : List Token} {word : List Char}
    (h : Sequence.Matches Token.accepts (first ++ second) word) : ∃ left right, left ++ right = word ∧
      Sequence.Matches Token.accepts first left ∧ Sequence.Matches Token.accepts second right := by
  refine h.of_append fun token taken rest other haccepts => ?_
  cases token <;> exact haccepts

namespace Piece

/-- A shortest word of the piece, with a slash for `?`. -/
def shortest : Piece → List Char
  | literal character => [character]
  | any => ['/']
  | characterClass (range :: _) => [range.1]
  | _ => []

theorem accepts_shortest {piece : Piece} {segmentStart : Bool} (h : piece.Fits segmentStart) (rest : List Char) :
    piece.accepts piece.shortest rest := by
  cases piece with
  | literal character => rfl
  | star => exact List.not_mem_nil
  | globstar => exact Or.inl rfl
  | deep => trivial
  | any => exact ⟨'/', rfl, by decide⟩
  | characterClass ranges =>
      cases ranges with
      | nil => exact absurd rfl h.1
      | cons range ranges =>
          refine ⟨range.1, rfl, range, List.mem_cons_self, le_rfl, ?_⟩
          cases hlast : range.2 with
          | none => exact le_rfl
          | some last => exact ((h.2 range List.mem_cons_self).2 last hlast).1

theorem line_notMem_shortest {piece : Piece} {segmentStart : Bool} (h : piece.Fits segmentStart) :
    '\n' ∉ piece.shortest := by
  cases piece with
  | literal character => exact fun hmem => h (List.mem_singleton.mp hmem ▸ by decide)
  | star => exact List.not_mem_nil
  | globstar => exact List.not_mem_nil
  | deep => exact List.not_mem_nil
  | any => decide
  | characterClass ranges =>
      cases ranges with
      | nil => exact List.not_mem_nil
      | cons range ranges =>
          exact fun hmem => (h.2 range List.mem_cons_self).1 (List.mem_singleton.mp hmem ▸ by decide)

theorem length_shortest (piece : Piece) : piece.shortest.length ≤ leastLength piece.tokens := by
  cases piece with
  | literal character => exact le_rfl
  | star => exact le_rfl
  | globstar => exact le_rfl
  | deep => exact le_rfl
  | any => exact le_rfl
  | characterClass ranges =>
      rw [tokens, leastLength_characters, text]
      cases ranges with
      | nil => exact Nat.zero_le _
      | cons range ranges => simp [shortest]

theorem length_shortests (pieces : List Piece) :
    (pieces.flatMap shortest).length ≤ leastLength (pieces.flatMap tokens) := by
  induction pieces with
  | nil => exact le_rfl
  | cons first pieces ih =>
      rw [List.flatMap_cons, List.flatMap_cons, List.length_append, leastLength_append]
      exact Nat.add_le_add (length_shortest first) ih

/-- The word is not matched where the translation does not know the piece. -/
theorem plain_of_matches_shortest {piece : Piece} (h : Sequence.Matches Token.accepts piece.tokens piece.shortest) :
    piece.plain = true := by
  cases piece with
  | literal character => rfl
  | star => rfl
  | globstar => rfl
  | deep => rfl
  | any =>
      obtain ⟨taken, rest, hword, ⟨_, hslash⟩, rfl⟩ := h
      rw [List.append_nil] at hword
      exact absurd (by rw [hword]; exact List.mem_singleton_self _) hslash
  | characterClass ranges =>
      have hlength := leastLength_le h
      rw [tokens, leastLength_characters, text] at hlength
      cases ranges with
      | nil => cases hlength
      | cons range ranges => simp [shortest] at hlength

end Piece

namespace Item

variable {items : List Item} {segmentStart : Bool}

/-- The pieces of the first alternatives. -/
def firstPieces : Item → List Piece
  | single piece => [piece]
  | braces alternatives => alternatives.headD []

def shortest (item : Item) : List Char := item.firstPieces.flatMap Piece.shortest

theorem firstPieces_mem_expansions (h : Readable segmentStart items) :
    items.flatMap firstPieces ∈ expansions items := by
  induction items generalizing segmentStart with
  | nil => exact List.mem_singleton_self _
  | cons first items ih =>
      cases first with
      | single piece => exact List.mem_map.mpr ⟨_, ih h.2.2.2, rfl⟩
      | braces alternatives =>
          obtain ⟨hsome, _, hreadable⟩ := h
          cases alternatives with
          | nil => exact absurd rfl hsome
          | cons alternative alternatives =>
              refine List.mem_flatMap.mpr ⟨alternative, List.mem_cons_self, ?_⟩
              exact List.mem_map.mpr ⟨_, ih hreadable, rfl⟩

theorem fits_of_readable {pieces : List Piece} (h : Piece.Readable segmentStart pieces) :
    ∀ piece ∈ pieces, ∃ start, piece.Fits start := by
  induction pieces generalizing segmentStart with
  | nil => exact nofun
  | cons first pieces ih =>
      intro piece hpiece
      rcases List.mem_cons.mp hpiece with rfl | hrest
      · exact ⟨segmentStart, h.1⟩
      · exact ih h.2.2.2 piece hrest

theorem fits_firstPieces (h : Readable segmentStart items) :
    ∀ piece ∈ items.flatMap firstPieces, ∃ start, piece.Fits start := by
  induction items generalizing segmentStart with
  | nil => exact nofun
  | cons first items ih =>
      intro piece hpiece
      rw [List.flatMap_cons, List.mem_append] at hpiece
      cases first with
      | single first =>
          rcases hpiece with hfirst | hrest
          · rw [List.mem_singleton.mp hfirst]
            exact ⟨segmentStart, h.1⟩
          · exact ih h.2.2.2 piece hrest
      | braces alternatives =>
          rcases hpiece with hfirst | hrest
          · cases alternatives with
            | nil => cases hfirst
            | cons alternative alternatives =>
                exact fits_of_readable (h.2.1 alternative List.mem_cons_self).1 piece hfirst
          · exact ih h.2.2 piece hrest

theorem matches_shortest {pieces : List Piece} (h : ∀ piece ∈ pieces, ∃ start, piece.Fits start) :
    Sequence.Matches Piece.accepts pieces (pieces.flatMap Piece.shortest) := by
  induction pieces with
  | nil => rfl
  | cons first pieces ih =>
      obtain ⟨start, hfits⟩ := h first List.mem_cons_self
      exact ⟨first.shortest, _, rfl, Piece.accepts_shortest hfits _,
        ih fun piece hpiece => h piece (List.mem_cons_of_mem first hpiece)⟩

theorem line_notMem_shortests {pieces : List Piece} (h : ∀ piece ∈ pieces, ∃ start, piece.Fits start) :
    '\n' ∉ pieces.flatMap Piece.shortest := by
  intro hmem
  obtain ⟨piece, hpiece, hline⟩ := List.mem_flatMap.mp hmem
  obtain ⟨start, hfits⟩ := h piece hpiece
  exact Piece.line_notMem_shortest hfits hline

/-- Braces and commas are characters to the translation. -/
theorem length_shortest_braces {alternatives : List (List Piece)} :
    (braces alternatives).shortest.length < leastLength (braces alternatives).tokens := by
  have hhead : (braces alternatives).shortest.length ≤ leastLength
      (List.intercalate [.character ','] (alternatives.map fun alternative => alternative.flatMap Piece.tokens)) := by
    rw [shortest]
    cases alternatives with
    | nil => exact Nat.zero_le _
    | cons first alternatives =>
        have hfirst := Piece.length_shortests first
        cases alternatives with
        | nil =>
            rw [List.map_singleton, List.intercalate_singleton]
            exact hfirst
        | cons second alternatives =>
            rw [List.map_cons, List.map_cons, List.intercalate_cons_cons, List.append_assoc, leastLength_append]
            exact Nat.le_add_right_of_le hfirst
  rw [tokens, List.cons_append, leastLength_cons, leastLength_append]
  exact Nat.lt_of_le_of_lt hhead (by simp [Token.least, leastLength]; omega)

theorem length_shortest (item : Item) : item.shortest.length ≤ leastLength item.tokens := by
  cases item with
  | single piece =>
      rw [shortest, firstPieces, List.flatMap_singleton]
      exact piece.length_shortest
  | braces alternatives => exact length_shortest_braces.le

theorem length_shortests (items : List Item) :
    (items.flatMap shortest).length ≤ leastLength (items.flatMap tokens) := by
  induction items with
  | nil => exact le_rfl
  | cons first items ih =>
      rw [List.flatMap_cons, List.flatMap_cons, List.length_append, leastLength_append]
      exact Nat.add_le_add first.length_shortest ih

theorem plain_of_matches_shortest {item : Item} (h : Sequence.Matches Token.accepts item.tokens item.shortest) :
    ∃ piece, item = single piece ∧ piece.plain = true := by
  cases item with
  | single piece =>
      rw [shortest, firstPieces, List.flatMap_singleton] at h
      exact ⟨piece, rfl, Piece.plain_of_matches_shortest h⟩
  | braces alternatives => exact absurd (leastLength_le h) length_shortest_braces.not_ge

/-- Where the tokens match a shortest word, each takes its own part of it, and no item is out of the ordinary. -/
theorem plain_of_matches_shortests
    (h : Sequence.Matches Token.accepts (items.flatMap tokens) (items.flatMap shortest)) :
    ∀ item ∈ items, ∃ piece, item = single piece ∧ piece.plain = true := by
  induction items with
  | nil => exact nofun
  | cons first items ih =>
      obtain ⟨left, right, hword, hleft, hright⟩ := matches_append h
      have hfirst := first.length_shortest.trans (leastLength_le hleft)
      have hrest := (length_shortests items).trans (leastLength_le hright)
      have hlength := congrArg List.length hword
      rw [List.flatMap_cons, List.length_append, List.length_append] at hlength
      obtain ⟨rfl, rfl⟩ := List.append_inj hword (by omega)
      intro item hitem
      rcases List.mem_cons.mp hitem with rfl | hmem
      · exact plain_of_matches_shortest hleft
      · exact ih hright item hmem

end Item

namespace Piece

variable {pieces : List Piece} {segmentStart : Bool} {word : List Char}

theorem Readable.of_append {more : List Piece} (h : Readable segmentStart (pieces ++ more)) :
    Readable segmentStart pieces := by
  induction pieces generalizing segmentStart with
  | nil => trivial
  | cons first pieces ih =>
      obtain ⟨hfits, hnext, hdeep, hrest⟩ := h
      refine ⟨hfits, fun heq next hhead => hnext heq next ?_, fun heq => ?_, ih hrest⟩
      · cases pieces with
        | nil => cases hhead
        | cons second pieces => exact hhead
      · exact (List.append_eq_nil_iff.mp (hdeep heq)).1

theorem Readable.opensSegment (h : Readable segmentStart (pieces ++ [globstar])) :
    ∀ last ∈ pieces.getLast?, last.opensSegment = true := by
  induction pieces generalizing segmentStart with
  | nil => exact nofun
  | cons first pieces ih =>
      intro last hlast
      cases pieces with
      | nil =>
          cases hlast
          exact h.2.2.2.1
      | cons second pieces =>
          rw [List.getLast?_cons_cons] at hlast
          exact ih h.2.2.2 last hlast

/-- Behind pieces after which a segment starts, a word that is not empty has ended with a slash. -/
theorem ends_of_opensSegment (hreadable : Readable segmentStart pieces)
    (hopens : ∀ last ∈ pieces.getLast?, last.opensSegment = true)
    (h : Sequence.Matches Token.accepts (pieces.flatMap tokens) word) : word = [] ∨ word.getLast? = some '/' := by
  induction pieces using List.reverseRecOn generalizing word with
  | nil => exact Or.inl h
  | append_singleton pieces last ih =>
      have hlast := hopens last List.getLast?_concat
      rw [List.flatMap_append, List.flatMap_singleton] at h
      obtain ⟨left, right, rfl, hleft, hright⟩ := matches_append h
      cases last with
      | literal character =>
          obtain ⟨taken, rest, rfl, htaken, rfl⟩ := hright
          have hslash : character = '/' := of_decide_eq_true hlast
          have htaken : taken = [character] := htaken
          rw [htaken, List.append_nil, List.getLast?_concat, hslash]
          exact Or.inr rfl
      | globstar =>
          obtain ⟨taken, rest, rfl, htaken, rfl⟩ := hright
          rw [List.append_nil]
          rcases htaken with rfl | ⟨_, hslash⟩
          · rw [List.append_nil]
            exact ih hreadable.of_append hreadable.opensSegment hleft
          · rw [List.getLast?_append, hslash]
            exact Or.inr rfl
      | star => cases hlast
      | deep => cases hlast
      | any => cases hlast
      | characterClass ranges => cases hlast

/-- A `**/` at the end stands for the rest of the path. -/
theorem matches_globstar_end (h : ∀ piece ∈ pieces, ∃ start, piece.Fits start) (rest : List Char) :
    Sequence.Matches accepts (pieces ++ [globstar]) (pieces.flatMap shortest ++ rest) := by
  induction pieces with
  | nil => exact Sequence.Matches.singleton (Or.inr (Or.inr rfl))
  | cons first pieces ih =>
      obtain ⟨start, hfits⟩ := h first List.mem_cons_self
      refine ⟨first.shortest, pieces.flatMap shortest ++ rest, ?_, accepts_shortest hfits _,
        ih fun piece hpiece => h piece (List.mem_cons_of_mem first hpiece)⟩
      rw [List.flatMap_cons, List.append_assoc]

end Piece

namespace Item

theorem expansions_single (pieces : List Piece) : expansions (pieces.map single) = [pieces] := by
  induction pieces with
  | nil => rfl
  | cons first pieces ih => rw [List.map_cons, expansions, ih, List.map_singleton]

theorem readable_single {pieces : List Piece} {segmentStart : Bool}
    (h : Readable segmentStart (pieces.map single)) : Piece.Readable segmentStart pieces := by
  induction pieces generalizing segmentStart with
  | nil => trivial
  | cons first pieces ih =>
      obtain ⟨hfits, hnext, hdeep, hrest⟩ := h
      refine ⟨hfits, fun heq next hhead => hnext heq next ?_, fun heq => List.map_eq_nil_iff.mp (hdeep heq), ih hrest⟩
      rw [List.head?_map, Option.mem_def.mp hhead, Option.map_some]

theorem exists_pieces {items : List Item} (h : ∀ item ∈ items, ∃ piece, item = single piece ∧ piece.plain = true) :
    ∃ pieces : List Piece, items = pieces.map single ∧ ∀ piece ∈ pieces, piece.plain = true := by
  induction items with
  | nil => exact ⟨[], rfl, nofun⟩
  | cons first items ih =>
      obtain ⟨piece, rfl, hplain⟩ := h first List.mem_cons_self
      obtain ⟨pieces, rfl, hpieces⟩ := ih fun item hitem => h item (List.mem_cons_of_mem _ hitem)
      exact ⟨piece :: pieces, rfl, List.forall_mem_cons.mpr ⟨hplain, hpieces⟩⟩

theorem flatMap_single_tokens (pieces : List Piece) :
    (pieces.map single).flatMap tokens = pieces.flatMap Piece.tokens := List.flatMap_map ..

end Item

namespace Pattern

variable {pattern : Pattern} {path : List Char}

theorem readable_rooted (pattern : Pattern) : Item.Readable true pattern.rooted := by
  rw [rooted]
  split
  · exact pattern.readable
  · exact ⟨rfl, nofun, nofun, pattern.readable⟩

theorem globMatches_iff_tokens (moduleName : String) : globMatches moduleName (String.ofList pattern.text) = true ↔
    Sequence.Matches Token.accepts (.currentDirectory :: pattern.rooted.flatMap Item.tokens) moduleName.toList := by
  have htext : (if '/' ∈ pattern.text then pattern.text else '*' :: '*' :: '/' :: pattern.text) =
      pattern.rooted.flatMap Item.text := by
    rw [rooted]
    split <;> rfl
  rw [globMatches, String.toList_ofList, decide_eq_true_eq, htext, Item.tokens_texts pattern.readable_rooted]

/-- Literals, `*` and `**` only, and no `**/` at the end. -/
def Plain (pattern : Pattern) : Prop :=
  (∀ item ∈ pattern.rooted, ∃ piece, item = .single piece ∧ piece.plain = true) ∧
    pattern.rooted.getLast? ≠ some (.single .globstar)

/-- A line feed in a path matters only to `**`. -/
def Within (pattern : Pattern) (path : List Char) : Prop :=
  '\n' ∉ path ∨ ∀ piece, .single piece ∈ pattern.rooted → piece.dotted = false

theorem Plain.matches_iff (h : pattern.Plain) (hwithin : pattern.Within path) :
    Sequence.Matches Token.accepts (.currentDirectory :: pattern.rooted.flatMap Item.tokens) path ↔
      pattern.Denotes path := by
  obtain ⟨hitems, hlast⟩ := h
  obtain ⟨pieces, hpieces, hplain⟩ := Item.exists_pieces hitems
  have hreadable := pattern.readable_rooted
  rw [Within] at hwithin
  rw [Denotes]
  rw [hpieces] at hlast hreadable hwithin ⊢
  have hreadable := Item.readable_single hreadable
  have hlast : pieces.getLast? ≠ some .globstar := by
    rintro heq
    rw [List.getLast?_map, heq] at hlast
    exact hlast rfl
  rw [Item.flatMap_single_tokens, Item.expansions_single]
  constructor
  · rintro ⟨taken, word, rfl, htaken, hmatches⟩
    refine ⟨word, ?_, pieces, List.mem_singleton_self _, Piece.matches_of_tokens hplain hmatches⟩
    exact htaken.imp (fun heq => by rw [heq]; rfl) fun heq => by rw [heq]; rfl
  · rintro ⟨word, hpath, _, hmem, hmatches⟩
    rw [List.mem_singleton.mp hmem] at hmatches
    have hline : '\n' ∉ word ∨ ∀ piece ∈ pieces, piece.dotted = false := by
      refine hwithin.imp (fun hline hword => hline ?_) fun hnone piece hpiece =>
        hnone piece (List.mem_map_of_mem hpiece)
      rcases hpath with rfl | rfl
      · exact hword
      · exact List.mem_cons_of_mem _ (List.mem_cons_of_mem _ hword)
    have htokens := Piece.tokens_of_matches hplain hreadable hlast hline hmatches
    rcases hpath with rfl | rfl
    · exact ⟨[], path, rfl, Or.inl rfl, htokens⟩
    · exact ⟨['.', '/'], word, rfl, Or.inr rfl, htokens⟩

theorem plain_of_agrees (h : ∀ path : List Char, pattern.Within path →
      (Sequence.Matches Token.accepts (.currentDirectory :: pattern.rooted.flatMap Item.tokens) path ↔
        pattern.Denotes path)) : pattern.Plain := by
  have hreadable := pattern.readable_rooted
  have hfits := Item.fits_firstPieces hreadable
  have hshortest : pattern.rooted.flatMap Item.shortest =
      (pattern.rooted.flatMap Item.firstPieces).flatMap Piece.shortest := List.flatMap_assoc.symm
  have hitems : ∀ item ∈ pattern.rooted, ∃ piece, item = .single piece ∧ piece.plain = true := by
    have hwithin : pattern.Within (pattern.rooted.flatMap Item.shortest) := by
      rw [Within, hshortest]
      exact Or.inl (Item.line_notMem_shortests hfits)
    have hdenotes : pattern.Denotes (pattern.rooted.flatMap Item.shortest) := by
      rw [hshortest]
      exact ⟨_, Or.inl rfl, _, Item.firstPieces_mem_expansions hreadable, Item.matches_shortest hfits⟩
    obtain ⟨taken, rest, hword, _, hmatches⟩ := (h _ hwithin).mpr hdenotes
    have hlong := (Item.length_shortests pattern.rooted).trans (leastLength_le hmatches)
    have hlength := congrArg List.length hword
    rw [List.length_append] at hlength
    have hnone : taken = [] := List.length_eq_zero_iff.mp (by omega)
    rw [hnone, List.nil_append] at hword
    rw [hword] at hmatches
    exact Item.plain_of_matches_shortests hmatches
  refine ⟨hitems, fun hlast => ?_⟩
  obtain ⟨pieces, hpieces, hplain⟩ := Item.exists_pieces hitems
  rw [hpieces, List.getLast?_map] at hlast
  obtain ⟨last, hlast, heq⟩ := Option.map_eq_some_iff.mp hlast
  cases heq
  obtain ⟨before, rfl⟩ := List.getLast?_eq_some_iff.mp hlast
  rw [hpieces] at hreadable hfits
  have hreadable := Item.readable_single hreadable
  have hbefore : ∀ piece ∈ before, ∃ start, piece.Fits start := fun piece hpiece =>
    Item.fits_of_readable hreadable piece (List.mem_append_left _ hpiece)
  have hline : '\n' ∉ before.flatMap Piece.shortest ++ ['x'] := by
    rw [List.mem_append, not_or]
    exact ⟨Item.line_notMem_shortests hbefore, by decide⟩
  have hdenotes : pattern.Denotes (before.flatMap Piece.shortest ++ ['x']) := by
    refine ⟨_, Or.inl rfl, before ++ [.globstar], ?_, Piece.matches_globstar_end hbefore _⟩
    rw [hpieces, Item.expansions_single]
    exact List.mem_singleton_self _
  obtain ⟨taken, rest, hword, htaken, hmatches⟩ := (h _ (Or.inl hline)).mpr hdenotes
  rw [hpieces, Item.flatMap_single_tokens] at hmatches
  have hend := congrArg List.getLast? hword
  rw [List.getLast?_concat] at hend
  have hopens : ∀ last ∈ (before ++ [Piece.globstar]).getLast?, last.opensSegment = true := by
    rw [List.getLast?_concat]
    rintro _ ⟨⟩
    rfl
  -- the word ends in a letter, where the tokens want a slash
  rcases Piece.ends_of_opensSegment hreadable hopens hmatches with rfl | hslash
  · rw [List.append_nil] at hend
    rcases htaken with rfl | rfl
    · cases hend
    · cases Option.some.inj hend
  · rw [List.getLast?_append, hslash] at hend
    cases Option.some.inj hend

/-- The translation matches just the paths that the pattern denotes when the pattern is plain, line feeds in the
path aside where the pattern has a `**`; a list of plain patterns is as good. -/
theorem globMatches_iff_denotes (pattern : Pattern) :
    ((∀ moduleName : String, pattern.Within moduleName.toList →
        (globMatches moduleName (String.ofList pattern.text) = true ↔ pattern.Denotes moduleName.toList)) ↔
      pattern.Plain) ∧
    ∀ (patterns : List Pattern) (moduleName : String),
      (∀ listed ∈ patterns, listed.Plain ∧ listed.Within moduleName.toList) →
        (moduleHasSideEffects moduleName (.array (patterns.map fun listed => .string (String.ofList listed.text))) =
          true ↔ ∃ listed ∈ patterns, listed.Denotes moduleName.toList) := by
  constructor
  · constructor
    · intro hagrees
      refine plain_of_agrees fun path hwithin => ?_
      have hpath := hagrees (String.ofList path)
      rw [globMatches_iff_tokens, String.toList_ofList] at hpath
      exact hpath hwithin
    · intro hplain moduleName hwithin
      rw [globMatches_iff_tokens]
      exact hplain.matches_iff hwithin
  · intro patterns moduleName hpatterns
    rw [moduleHasSideEffects]
    induction patterns with
    | nil => exact Iff.intro nofun fun ⟨_, hmem, _⟩ => by cases hmem
    | cons first patterns ih =>
        obtain ⟨hplain, hwithin⟩ := hpatterns first List.mem_cons_self
        rw [List.map_cons, anyHasSideEffects, Bool.or_eq_true, List.exists_mem_cons_iff,
          ih fun listed hlisted => hpatterns listed (List.mem_cons_of_mem first hlisted), moduleHasSideEffects,
          globMatches_iff_tokens, hplain.matches_iff hwithin]

end Pattern

/-- The pattern for style sheets of two kinds. -/
def styleSheets : Pattern where
  items := [.single .star, .single (.literal '.'), .braces [[.literal 'c', .literal 's', .literal 's'],
    [.literal 's', .literal 'c', .literal 's', .literal 's']]]
  readable := by
    simp [Item.Readable, Piece.Readable, Piece.Fits, Piece.special, Piece.opensStar]

theorem not_globMatches_iff_denotes : ∃ (pattern : Pattern) (moduleName : String),
    pattern.Denotes moduleName.toList ∧ globMatches moduleName (String.ofList pattern.text) = false := by
  refine ⟨styleSheets, "./a.css", ?_, by decide⟩
  refine ⟨['a', '.', 'c', 's', 's'], Or.inr rfl, [.globstar, .star, .literal '.', .literal 'c', .literal 's',
    .literal 's'], ?_, ?_⟩
  · exact List.mem_cons_self
  · have hstar : '/' ∉ ['a'] := by decide
    exact ⟨[], _, rfl, Or.inl rfl, ['a'], _, rfl, hstar, ['.'], _, rfl, rfl, ['c'], _, rfl, rfl, ['s'], _, rfl, rfl,
      ['s'], _, rfl, rfl, rfl⟩

end Unpack.SideEffectsFlagPlugin
