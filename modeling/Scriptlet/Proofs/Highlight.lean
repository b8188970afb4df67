import Scriptlet.Highlight
import Scriptlet.Proofs.Token.Stopping

/-!
# What highlighting shows

A line that can be cut into tokens is shown as one part for each tile, with the
terminal attributes of the group of its token, and one part without attributes for
each run of separators. If cutting stops, this is what is shown of the text before
the place where it does, and the rest of the line is one part in bold red. Since a
line has no newlines, the columns of its tokens are places in the line, so the
parts cover the line without a character lost or shown twice.
-/

namespace Scriptlet

open Character Lexeme

namespace Highlight

/-- What is seen of a part: its terminal attributes and its text. -/
def look (part : Part) : String × List Char :=
  (part.style.attributes, part.text)

/-- The terminal attributes of the tokens of a kind, group by group: keywords, numbers,
strings, names, operators and punctuation. -/
def groupAttributes : Kind → String
  | .letWord | .constWord | .fnWord => "bold ansicyan"
  | .number => "ansimagenta"
  | .string => "ansigreen"
  | .ident => ""
  | .operator | .equals => ""
  | .comma | .dot | .colon | .semi => ""
  | .lpar | .rpar | .lbrace | .rbrace | .lsqb | .rsqb => ""
  | .eof => ""

/-- The terminal attributes of what cannot be cut into tokens. -/
def errorAttributes : String :=
  "bold ansired"

/-- How a run of separators is seen, which has no attributes; an empty run is not
seen. -/
def blankLooks (run : List Char) : List (String × List Char) :=
  if run = [] then [] else [("", run)]

/-- How a tile is seen: its token with the attributes of its group, and the separators
after it. -/
def tileLooks (tile : Tile) : List (String × List Char) :=
  (groupAttributes tile.token.kind, tile.span) :: blankLooks tile.gap

/-- How separators and the tiles after them are seen. -/
def coloured (lead : List Char) (tiles : List Tile) : List (String × List Char) :=
  blankLooks lead ++ tiles.flatMap tileLooks

/-- Whether what is seen of a line shows its tokens. -/
structure Shows (line : List Char) (looks : List (String × List Char)) : Prop where
  /-- The texts make up the line. -/
  text_eq : looks.flatMap Prod.snd = line
  /-- No text is empty, unless the line is. -/
  text_ne_nil : line ≠ [] → ∀ seen ∈ looks, seen.2 ≠ []
  /-- An error is seen exactly if the line cannot be cut into tokens. -/
  error_iff : (∃ seen ∈ looks, seen.1 = errorAttributes) ↔
    ∃ e, tokenize (String.ofList line) = .error e
  /-- What is seen of a line with tokens are its tiles; each number starts in the
  line. -/
  of_ok : ∀ tokens, tokenize (String.ofList line) = .ok tokens →
    (∃ lead tiles, Tiling line tokens lead tiles ∧
      looks = if line = [] then [("", [])] else coloured lead tiles) ∧
    ∀ token ∈ tokens, token.kind = .number → start token < line.length
  /-- What is seen of a line without tokens are the tiles before the failure, and then
  the only error, which starts there. -/
  of_error : ∀ e, tokenize (String.ofList line) = .error e →
    ∃ shown tokens lead tiles, looks = shown ++ [(errorAttributes, line.drop e.offset)] ∧
      (∀ seen ∈ shown, seen.1 ≠ errorAttributes) ∧
      tokenize (String.ofList (line.take e.offset)) = .ok tokens ∧
      Tiling (line.take e.offset) tokens lead tiles ∧ shown = coloured lead tiles ∧
      ∀ token ∈ tokens, token.kind = .number → start token < line.length

/-- The style of a kind has the attributes of its group. -/
theorem attributes_style (kind : Kind) : kind.style.attributes = groupAttributes kind := by
  cases kind <;> rfl

/-- No group has the attributes of an error. -/
theorem groupAttributes_ne_error (kind : Kind) : groupAttributes kind ≠ errorAttributes := by
  cases kind <;> decide

/-- A slice between two texts. -/
theorem slice_append (before middle later : List Char) :
    slice (before ++ (middle ++ later)) before.length (before.length + middle.length) = middle := by
  simp [slice]

/-- The gap between two texts is seen as what stands there. -/
theorem map_look_gap {line before middle later : List Char}
    (hline : line = before ++ (middle ++ later)) :
    (gap line before.length (before ++ middle).length).map look = blankLooks middle := by
  rw [hline, List.length_append]
  unfold gap blankLooks
  cases middle with
  | nil => simp
  | cons c middle =>
    rw [slice_append]
    simp [look, Style.attributes]

end Highlight

open Highlight

namespace Tile

variable {tile : Tile} {before later : List Char}

/-- In a line, a token starts after as many characters as stand before it. -/
theorem Fits.start_eq (h : tile.Fits before later) (hbefore : '\n' ∉ before) :
    start tile.token = before.length := by
  rw [start, h.placed, Position.ofText_of_notMem hbefore]
  simp

/-- In a line, a token is shown as it is spelled. A number that is spelled with its zero
does not start with a point. -/
theorem Fits.spelling_eq (h : tile.Fits before later) (hbefore : '\n' ∉ before)
    (rest : List Char) : spelling (before ++ (tile.span ++ rest)) tile.token = tile.span := by
  have hstart := h.start_eq hbefore
  have hdrop : (before ++ (tile.span ++ rest)).drop before.length = tile.span ++ rest := by simp
  have hspelled := h.spelled
  generalize tile.span = span at hspelled hdrop ⊢
  unfold spelling
  cases hspelled with
  | plain hkind =>
    cases hk : tile.token.kind with
    | string => exact absurd hk hkind
    | number =>
      have hzero :
          hasAddedZero (before ++ (tile.token.text.toList ++ rest)) tile.token = false := by
        unfold hasAddedZero
        rw [hstart, hdrop]
        cases tile.token.text.toList with
        | nil => simp
        | cons c text =>
          by_cases hc : c = '0'
          · simp [hc]
          · simp [Ne.symm hc]
      simp [hzero]
    | _ => rfl
  | @quoted quote hkind _ _ =>
    have hlength :
        (quote :: tile.token.text.toList ++ [quote]).length = tile.token.text.length + 2 := by
      simp [String.length_toList]
    rw [hkind, hstart]
    dsimp only
    rw [Nat.add_assoc, ← hlength, slice_append]
  | @pointed digits hkind htext =>
    have hzero : hasAddedZero (before ++ ('.' :: digits ++ rest)) tile.token = true := by
      unfold hasAddedZero
      rw [hstart, hdrop, htext]
      simp
    rw [hkind]
    dsimp only
    rw [if_pos hzero, htext]
    rfl

/-- The tokens of tiles start inside the text that the tiles cover. -/
theorem Laid.start_lt {tiles : List Tile} (h : Laid before tiles)
    (hline : '\n' ∉ before ++ tiles.flatMap text) (htile : tile ∈ tiles) :
    start tile.token < (before ++ tiles.flatMap text).length := by
  induction tiles generalizing before with
  | nil => simp at htile
  | cons first rest ih =>
    obtain ⟨hfits, hrest⟩ := h
    have hsplit : before ++ (first :: rest).flatMap text =
        before ++ first.text ++ rest.flatMap text := by simp
    rcases List.mem_cons.1 htile with rfl | htile
    · have hbefore : '\n' ∉ before := fun hmem => hline (by simp [hmem])
      have hpos : 0 < tile.span.length := List.length_pos_iff.2 hfits.span_ne_nil
      rw [hfits.start_eq hbefore, hsplit, Tile.text]
      simp only [List.length_append]
      omega
    · rw [hsplit] at hline ⊢
      exact ih hrest hline htile

end Tile

namespace Highlight

/-- The parts of the tokens of tiles, and of what follows the last of them, are seen as
the tiles. The text passed so far goes up to the end of a token. -/
theorem tokenParts_laid {line tail : List Char} {tiles : List Tile} {last : Token}
    (before lead : List Char)
    (hline : line = before ++ (lead ++ (tiles.flatMap Tile.text ++ tail))) (hnewline : '\n' ∉ line)
    (hlaid : Tile.Laid (before ++ lead) tiles) (hlast : last.kind = .eof) :
    ((tokenParts line before.length (tiles.map Tile.token ++ [last])).1 ++
        gap line (tokenParts line before.length (tiles.map Tile.token ++ [last])).2
          (before ++ (lead ++ tiles.flatMap Tile.text)).length).map look =
      coloured lead tiles := by
  induction tiles generalizing before lead with
  | nil =>
    have hgap := map_look_gap hline
    simpa [tokenParts, hlast, coloured] using hgap
  | cons tile rest ih =>
    obtain ⟨hfits, hrest⟩ := hlaid
    have hbefore : '\n' ∉ before ++ lead := by
      intro hmem
      apply hnewline
      rw [hline, ← List.append_assoc]
      exact List.mem_append_left _ hmem
    have hstart := hfits.start_eq hbefore
    have hspelling : spelling line tile.token = tile.span := by
      have h := hfits.spelling_eq hbefore (tile.gap ++ (rest.flatMap Tile.text ++ tail))
      rw [hline]
      simpa [Tile.text] using h
    have hafter := ih (before ++ lead ++ tile.span) tile.gap (by rw [hline]; simp [Tile.text])
      (by rw [List.append_assoc]; exact hrest)
    have hindex : start tile.token + tile.span.length = (before ++ lead ++ tile.span).length := by
      rw [hstart, ← List.length_append]
    have hlength : (before ++ (lead ++ (tile :: rest).flatMap Tile.text)).length =
        (before ++ lead ++ tile.span ++ (tile.gap ++ rest.flatMap Tile.text)).length := by
      simp [Tile.text]
    rw [List.map_cons, List.cons_append, tokenParts, if_neg hfits.inner]
    dsimp only
    rw [hspelling, hindex, hstart, hlength, List.append_assoc, List.map_append,
      map_look_gap hline, List.cons_append, List.map_cons, hafter]
    simp [coloured, tileLooks, look, attributes_style]

/-- The parts of a line that starts with tiles are seen as these, before the rest of it
is added. -/
theorem tokenParts_tiling {source lead : List Char} {tokens : List Token} {tiles : List Tile}
    (h : Tiling source tokens lead tiles) (tail : List Char) (hnewline : '\n' ∉ source ++ tail) :
    ((tokenParts (source ++ tail) 0 tokens).1 ++
        gap (source ++ tail) (tokenParts (source ++ tail) 0 tokens).2 source.length).map look =
      coloured lead tiles := by
  let last : Token := ⟨.eof, Token.endText, .ofText source⟩
  have hlast : last.kind = .eof := rfl
  have hline : source ++ tail = [] ++ (lead ++ (tiles.flatMap Tile.text ++ tail)) := by
    rw [h.source_eq]
    simp
  have hparts := tokenParts_laid [] lead hline hnewline h.laid hlast
  rw [List.nil_append, ← h.source_eq] at hparts
  rw [h.tokens_eq]
  exact hparts

/-- What is seen of separators and tiles makes up their text. -/
theorem flatMap_snd_coloured (lead : List Char) (tiles : List Tile) :
    (coloured lead tiles).flatMap Prod.snd = lead ++ tiles.flatMap Tile.text := by
  have hblank : ∀ run, (blankLooks run).flatMap Prod.snd = run := by
    intro run
    cases run <;> simp [blankLooks]
  induction tiles with
  | nil => simp [coloured, hblank]
  | cons tile rest ih =>
    simp only [coloured, List.flatMap_append, hblank, List.append_cancel_left_eq] at ih
    simp [coloured, tileLooks, hblank, ih, Tile.text]

/-- What holds of runs of separators and of tokens holds of all that is seen. -/
theorem forall_mem_coloured {P : String × List Char → Prop} {before lead : List Char}
    {tiles : List Tile} (hlaid : Tile.Laid before tiles) (hblank : ∀ run, run ≠ [] → P ("", run))
    (htoken : ∀ tile : Tile, tile.span ≠ [] → P (groupAttributes tile.token.kind, tile.span)) :
    ∀ seen ∈ coloured lead tiles, P seen := by
  have hrun : ∀ run, ∀ seen ∈ blankLooks run, P seen := by
    intro run seen hseen
    unfold blankLooks at hseen
    split at hseen
    · simp at hseen
    · rename_i hne
      rw [List.mem_singleton.1 hseen]
      exact hblank run hne
  have htiles : ∀ seen ∈ tiles.flatMap tileLooks, P seen := by
    induction tiles generalizing before with
    | nil => simp
    | cons tile rest ih =>
      obtain ⟨hfits, hrest⟩ := hlaid
      intro seen hseen
      rw [List.flatMap_cons, List.mem_append, tileLooks, List.mem_cons] at hseen
      rcases hseen with (rfl | hseen) | hseen
      · exact htoken tile hfits.span_ne_nil
      · exact hrun _ seen hseen
      · exact ih hrest seen hseen
  intro seen hseen
  rcases List.mem_append.1 hseen with hseen | hseen
  · exact hrun _ seen hseen
  · exact htiles seen hseen

/-- Tiles are not seen as errors. -/
theorem fst_of_mem_coloured {before lead : List Char} {tiles : List Tile}
    (hlaid : Tile.Laid before tiles) :
    ∀ seen ∈ coloured lead tiles, seen.1 ≠ errorAttributes := by
  have hplain : "" ≠ errorAttributes := by decide
  exact forall_mem_coloured hlaid (fun _ _ => hplain)
    fun tile _ => groupAttributes_ne_error tile.token.kind

/-- What is seen of tiles is not empty. -/
theorem snd_of_mem_coloured {before lead : List Char} {tiles : List Tile}
    (hlaid : Tile.Laid before tiles) : ∀ seen ∈ coloured lead tiles, seen.2 ≠ [] :=
  forall_mem_coloured hlaid (fun _ hrun => hrun) fun _ hspan => hspan

/-- Nothing is seen of separators and tiles exactly if they have no text. -/
theorem coloured_eq_nil_iff {before lead : List Char} {tiles : List Tile}
    (hlaid : Tile.Laid before tiles) :
    coloured lead tiles = [] ↔ lead ++ tiles.flatMap Tile.text = [] := by
  rw [← flatMap_snd_coloured, List.flatMap_eq_nil_iff]
  constructor
  · intro hnil
    simp [hnil]
  · intro hall
    refine List.eq_nil_iff_forall_not_mem.2 fun seen hseen => ?_
    exact snd_of_mem_coloured hlaid seen hseen (hall seen hseen)

/-- The numbers among the tokens of a line start in it. -/
theorem start_lt_of_tiling {source lead : List Char} {tokens : List Token} {tiles : List Tile}
    (h : Tiling source tokens lead tiles) (tail : List Char) (hnewline : '\n' ∉ source ++ tail) :
    ∀ token ∈ tokens, token.kind = .number → start token < (source ++ tail).length := by
  intro token htoken hnumber
  rw [h.tokens_eq, List.mem_append, List.mem_singleton] at htoken
  rcases htoken with htoken | rfl
  · obtain ⟨tile, htile, rfl⟩ := List.mem_map.1 htoken
    have hsource : '\n' ∉ lead ++ tiles.flatMap Tile.text := by
      rw [← h.source_eq]
      exact fun hmem => hnewline (List.mem_append_left _ hmem)
    have hlt := h.laid.start_lt hsource htile
    rw [← h.source_eq] at hlt
    rw [List.length_append]
    omega
  · simp at hnumber

/-- How the parts of a line that is cut into tiles are seen. -/
theorem map_look_parts_of_ok {line lead : List Char} {tokens : List Token} {tiles : List Tile}
    (hnewline : '\n' ∉ line) (htokens : tokenize (String.ofList line) = .ok tokens)
    (htiling : Tiling line tokens lead tiles) :
    (parts line).map look = if line = [] then [("", [])] else coloured lead tiles := by
  have hparts : ((tokenParts line 0 tokens).1 ++
      gap line (tokenParts line 0 tokens).2 line.length).map look = coloured lead tiles := by
    have h := tokenParts_tiling htiling [] (by rwa [List.append_nil])
    rwa [List.append_nil] at h
  have hempty : (coloured lead tiles).isEmpty = true ↔ line = [] := by
    rw [List.isEmpty_iff, coloured_eq_nil_iff htiling.laid, ← htiling.source_eq]
  rw [← hparts, List.isEmpty_map] at hempty
  unfold parts
  rw [htokens]
  dsimp only
  unfold assemble
  dsimp only
  by_cases hline : line = []
  · rw [if_pos (hempty.2 hline), if_pos hline, hline]
    rfl
  · rw [if_neg (mt hempty.1 hline), if_neg hline, hparts]

/-- How the parts of a line that is cut into tiles up to a failure are seen. -/
theorem map_look_parts_of_error {passed rest lead : List Char} {c : Char} {tokens : List Token}
    {tiles : List Tile} {e : LexError} (hnewline : '\n' ∉ passed ++ c :: rest)
    (he : tokenize (String.ofList (passed ++ c :: rest)) = .error e)
    (hoffset : e.offset = passed.length) (htokens : tokenize (String.ofList passed) = .ok tokens)
    (htiling : Tiling passed tokens lead tiles) :
    (parts (passed ++ c :: rest)).map look =
      coloured lead tiles ++ [(errorAttributes, c :: rest)] := by
  have hparts := tokenParts_tiling htiling (c :: rest) hnewline
  unfold parts
  rw [he]
  dsimp only
  rw [hoffset, List.take_left, tokensOf, htokens]
  dsimp only
  unfold assemble
  dsimp only
  rw [List.drop_left, if_neg (by simp), List.map_append, hparts]
  rfl

/-- The parts of a line with tokens show them. -/
theorem shows_of_ok {line lead : List Char} {tokens : List Token} {tiles : List Tile}
    (hnewline : '\n' ∉ line) (htokens : tokenize (String.ofList line) = .ok tokens)
    (htiling : Tiling line tokens lead tiles) : Shows line ((parts line).map look) := by
  have hlooks := map_look_parts_of_ok hnewline htokens htiling
  have htext : (coloured lead tiles).flatMap Prod.snd = line := by
    rw [flatMap_snd_coloured, ← htiling.source_eq]
  constructor
  case text_eq =>
    rw [hlooks]
    split
    · rename_i hline
      rw [hline]
      rfl
    · exact htext
  case text_ne_nil =>
    intro hline
    rw [hlooks, if_neg hline]
    exact snd_of_mem_coloured htiling.laid
  case error_iff =>
    have herror : ∀ seen ∈ (parts line).map look, seen.1 ≠ errorAttributes := by
      rw [hlooks]
      split
      · intro seen hseen
        rw [List.mem_singleton.1 hseen]
        decide
      · exact fst_of_mem_coloured htiling.laid
    constructor
    · rintro ⟨seen, hseen, hattributes⟩
      exact absurd hattributes (herror seen hseen)
    · rintro ⟨e, he⟩
      rw [htokens] at he
      cases he
  case of_ok =>
    intro all hall
    obtain rfl := Except.ok.inj (htokens.symm.trans hall)
    refine ⟨⟨lead, tiles, htiling, hlooks⟩, ?_⟩
    have hlt := start_lt_of_tiling htiling [] (by rwa [List.append_nil])
    rwa [List.append_nil] at hlt
  case of_error =>
    intro e he
    rw [htokens] at he
    cases he

/-- The parts of a line without tokens show those before the failure. -/
theorem shows_of_error {passed rest lead : List Char} {c : Char} {tokens : List Token}
    {tiles : List Tile} {e : LexError} (hnewline : '\n' ∉ passed ++ c :: rest)
    (he : tokenize (String.ofList (passed ++ c :: rest)) = .error e)
    (hoffset : e.offset = passed.length) (htokens : tokenize (String.ofList passed) = .ok tokens)
    (htiling : Tiling passed tokens lead tiles) :
    Shows (passed ++ c :: rest) ((parts (passed ++ c :: rest)).map look) := by
  rw [map_look_parts_of_error hnewline he hoffset htokens htiling]
  constructor
  case text_eq =>
    rw [List.flatMap_append, flatMap_snd_coloured, ← htiling.source_eq]
    simp
  case text_ne_nil =>
    intro _ seen hseen
    rcases List.mem_append.1 hseen with hseen | hseen
    · exact snd_of_mem_coloured htiling.laid seen hseen
    · rw [List.mem_singleton.1 hseen]
      simp
  case error_iff =>
    constructor
    · intro _
      exact ⟨e, he⟩
    · intro _
      exact ⟨(errorAttributes, c :: rest), by simp, rfl⟩
  case of_ok =>
    intro all hall
    rw [he] at hall
    cases hall
  case of_error =>
    intro e' he'
    obtain rfl := Except.error.inj (he.symm.trans he')
    rw [hoffset, List.take_left, List.drop_left]
    exact ⟨_, tokens, lead, tiles, rfl, fst_of_mem_coloured htiling.laid, htokens, htiling, rfl,
      start_lt_of_tiling htiling (c :: rest) hnewline⟩

/-- The parts of a line show its tokens. -/
theorem shows_parts {line : List Char} (hnewline : '\n' ∉ line) :
    Shows line ((parts line).map look) := by
  cases htokens : tokenize (String.ofList line) with
  | ok tokens =>
    obtain ⟨lexemes, hcuts, rfl⟩ := tokenize_eq_ok_iff.1 htokens
    obtain ⟨lead, tiles, htiling⟩ := hcuts.exists_tiling
    rw [String.toList_ofList] at htiling htokens
    exact shows_of_ok hnewline htokens htiling
  | error e =>
    obtain ⟨passed, c, rest, lexemes, hline, hcuts, -, heq⟩ := exists_cuts_of_tokenize_error htokens
    have hoffset : e.offset = passed.length := by rw [heq]
    obtain ⟨lead, tiles, htiling⟩ := hcuts.exists_tiling
    have hpassed : tokenize (String.ofList passed) = .ok (tokensFrom .start lexemes ++
        [⟨.eof, Token.endText, Position.start.after passed⟩]) :=
      tokenize_eq_ok_iff.2 ⟨lexemes, by rwa [String.toList_ofList], by rw [String.toList_ofList]⟩
    rw [String.toList_ofList] at hline
    subst hline
    exact shows_of_error hnewline htokens hoffset hpassed htiling

/-- The lines of a text are what newlines divide. -/
theorem lines_eq_splitOn (text : List Char) : lines text = text.splitOn '\n' := by
  induction text with
  | nil => rfl
  | cons c rest ih =>
    rw [List.splitOn, List.splitOnP_cons_eq_if_modifyHead, ← List.splitOn, ← ih]
    by_cases hc : c = '\n'
    · simp [lines, splitLines, hc]
    · simp [lines, splitLines, hc]

/-- A line has no newlines. -/
theorem newline_notMem_of_mem_lines {text line : List Char} (h : line ∈ lines text) :
    '\n' ∉ line := by
  induction text generalizing line with
  | nil => simp_all [lines, splitLines]
  | cons c rest ih =>
    have hrest : ∀ line ∈ (splitLines rest).1 :: (splitLines rest).2, '\n' ∉ line :=
      fun line hline => ih hline
    by_cases hc : c = '\n'
    · simp only [lines, splitLines, hc, if_true, List.mem_cons] at h
      rcases h with rfl | h
      · simp
      · exact hrest line (List.mem_cons.2 h)
    · simp only [lines, splitLines, hc, if_false, List.mem_cons] at h
      rcases h with rfl | h
      · simp [Ne.symm hc, hrest]
      · exact hrest line (List.mem_cons_of_mem _ h)

/-- The parts of each line of a text show its tokens. -/
theorem lineParts?_shows {text : String} {number : Nat} {line : List Char}
    (h : (text.toList.splitOn '\n')[number]? = some line) :
    ∃ parts, lineParts? text number = some parts ∧ Shows line (parts.map look) := by
  rw [← lines_eq_splitOn] at h
  have hline : '\n' ∉ line := newline_notMem_of_mem_lines (List.mem_of_getElem? h)
  have hnumber : ¬ (number : Int) < 0 := by omega
  refine ⟨parts line, ?_, shows_parts hline⟩
  simp only [lineParts?, if_neg hnumber, Int.toNat_natCast, h]

/-- A line with a keyword, a number that starts with its point, a string, and a quote
that is not closed. -/
theorem lineParts?_shows_open_quote :
    let text := "fn\nlet a=.5 'b' 'c"
    let line := "let a=.5 'b' 'c".toList
    let looks := [("bold ansicyan", "let".toList), ("", " ".toList), ("", "a".toList),
      ("", "=".toList), ("ansimagenta", ".5".toList), ("", " ".toList),
      ("ansigreen", "'b'".toList), ("", " ".toList), ("bold ansired", "'c".toList)]
    (text.toList.splitOn '\n')[1]? = some line ∧
      ∃ parts, lineParts? text 1 = some parts ∧ parts.map look = looks ∧ Shows line looks := by
  intro text line looks
  have hline : (text.toList.splitOn '\n')[1]? = some line := by decide
  have hlooks : (lineParts? text 1).map (·.map look) = some looks := by decide +kernel
  obtain ⟨parts, (hparts : lineParts? text 1 = some parts), hshows⟩ := lineParts?_shows hline
  rw [hparts, Option.map_some, Option.some.injEq] at hlooks
  rw [hlooks] at hshows
  exact ⟨hline, parts, hparts, hlooks, hshows⟩

end Highlight

end Scriptlet
