import Rubric.Proofs.Script.BlockRepair
import Rubric.Proofs.Script.SourceLines

/-!
# Closing the blocks of a text

The words that lines start with open and close blocks.  Where they are the start of a well-nested
sequence, the blocks left open form a stack, and the repair of blocks closes them from the innermost
on.

* `LeavesOpen` : which blocks some words leave open;
* `exists_leavesOpen` : the start of a well-nested sequence leaves some open;
* `foldl_openAfter_of_leavesOpen` : they are those that the repair has open at the end;
* `repairBlocks_completes` : the repair adds the words that close them, and nothing else.
-/

namespace Rubric.Script

open Rubric.Text

/-! ## Blocks -/

/-- The kinds of blocks. -/
inductive BlockKind where
  | branch
  | foreach
  deriving DecidableEq, Repr

namespace BlockKind

/-- The word that opens a block. -/
def opener : BlockKind → Keyword
  | branch => .branch
  | foreach => .foreach

/-- The word that closes a block. -/
def closer : BlockKind → Keyword
  | branch => .endBranch
  | foreach => .endForeach

/-- A block is open after its opening word. -/
theorem openAfter_opener (kind : BlockKind) (blocks : List Keyword) :
    openAfter blocks kind.opener = kind.opener :: blocks := by
  cases kind <;> rfl

/-- The closing word of the innermost block closes it. -/
theorem openAfter_closer (kind : BlockKind) (blocks : List Keyword) :
    openAfter (kind.opener :: blocks) kind.closer = blocks := by
  cases kind <;> simp [openAfter, opener, closer]

/-- A block is closed with the text of its closing word. -/
theorem closerOf_opener (kind : BlockKind) : closerOf kind.opener = kind.closer.text := by
  cases kind <;> rfl

end BlockKind

/-- Whether words open and close blocks in a well-nested sequence that is complete. -/
inductive WellNested : List Keyword → Prop where
  | nil : WellNested []
  | block (kind : BlockKind) {inner rest : List Keyword} (hinner : WellNested inner)
      (hrest : WellNested rest) : WellNested (kind.opener :: (inner ++ kind.closer :: rest))

/-- Whether words open and close blocks in a well-nested way that leaves the given ones open, the
innermost first. -/
inductive LeavesOpen : List Keyword → List BlockKind → Prop where
  | nil : LeavesOpen [] []
  | closed (kind : BlockKind) {inner rest : List Keyword} {opened : List BlockKind}
      (hinner : WellNested inner) (hrest : LeavesOpen rest opened) :
      LeavesOpen (kind.opener :: (inner ++ kind.closer :: rest)) opened
  | opened (kind : BlockKind) {rest : List Keyword} {opened : List BlockKind}
      (hrest : LeavesOpen rest opened) : LeavesOpen (kind.opener :: rest) (opened ++ [kind])

/-- The start of a well-nested sequence leaves some blocks open. -/
theorem exists_leavesOpen {words more : List Keyword} (h : WellNested (words ++ more)) :
    ∃ opened, LeavesOpen words opened := by
  generalize hall : words ++ more = all at h
  induction h generalizing words more with
  | nil =>
      obtain ⟨rfl, -⟩ := List.append_eq_nil_iff.mp hall
      exact ⟨[], .nil⟩
  | @block kind inner rest hinner _ ihinner ihrest =>
      cases words with
      | nil => exact ⟨[], .nil⟩
      | cons word words =>
          obtain ⟨rfl, hrest⟩ := List.cons.inj hall
          -- the words end inside the first block, or after its closing word
          rcases List.append_eq_append_iff.mp hrest with ⟨cut, hcut, -⟩ | ⟨cut, rfl, hcut⟩
          · obtain ⟨opened, hopened⟩ := ihinner hcut.symm
            exact ⟨opened ++ [kind], .opened kind hopened⟩
          · cases cut with
            | nil =>
                obtain ⟨opened, hopened⟩ := ihinner (List.append_nil inner)
                rw [List.append_nil]
                exact ⟨opened ++ [kind], .opened kind hopened⟩
            | cons closer cut =>
                obtain ⟨rfl, hafter⟩ := List.cons.inj hcut
                obtain ⟨opened, hopened⟩ := ihrest hafter.symm
                exact ⟨opened, .closed kind hinner hopened⟩

/-- Closing what is left open, the innermost first, completes a sequence. -/
theorem LeavesOpen.wellNested {words : List Keyword} {opened : List BlockKind} (h : LeavesOpen words opened) :
    WellNested (words ++ opened.map BlockKind.closer) := by
  induction h with
  | nil => exact .nil
  | closed kind hinner _ ih =>
      rw [List.cons_append, List.append_assoc, List.cons_append]
      exact .block kind hinner ih
  | @opened kind rest opened _ ih =>
      rw [List.map_append, List.cons_append, ← List.append_assoc]
      exact .block kind ih .nil

/-- A well-nested sequence leaves the open blocks as they are. -/
theorem foldl_openAfter_of_wellNested {words : List Keyword} (h : WellNested words)
    (blocks : List Keyword) : words.foldl openAfter blocks = blocks := by
  induction h generalizing blocks with
  | nil => rfl
  | block kind _ _ ihinner ihrest =>
      rw [List.foldl_cons, List.foldl_append, List.foldl_cons, kind.openAfter_opener, ihinner,
        kind.openAfter_closer, ihrest]

/-- The blocks that words leave open are those that the repair finds open. -/
theorem foldl_openAfter_of_leavesOpen {words : List Keyword} {opened : List BlockKind}
    (h : LeavesOpen words opened) (blocks : List Keyword) :
    words.foldl openAfter blocks = opened.map BlockKind.opener ++ blocks := by
  induction h generalizing blocks with
  | nil => rfl
  | closed kind hinner _ ih =>
      rw [List.foldl_cons, List.foldl_append, List.foldl_cons, kind.openAfter_opener,
        foldl_openAfter_of_wellNested hinner, kind.openAfter_closer, ih]
  | opened kind _ ih =>
      rw [List.foldl_cons, kind.openAfter_opener, ih, List.map_append, List.append_assoc]
      rfl

/-- Words leave no block open if and only if they are complete. -/
theorem LeavesOpen.eq_nil_iff {words : List Keyword} {opened : List BlockKind} (h : LeavesOpen words opened) :
    opened = [] ↔ WellNested words := by
  constructor
  · rintro rfl
    simpa using h.wellNested
  · intro hnested
    have hopen := foldl_openAfter_of_leavesOpen h []
    rw [foldl_openAfter_of_wellNested hnested, List.append_nil] at hopen
    exact List.map_eq_nil_iff.mp hopen.symm

/-! ## The words of a text -/

/-- Whether a word opens or closes blocks. -/
def Keyword.turnsBlocks : Keyword → Bool
  | .branch | .foreach | .endBranch | .endForeach => true
  | _ => false

/-- The words at the starts of the lines of a text that open and close blocks. -/
def blockWords (cs : List Char) : List Keyword :=
  ((lines cs).filterMap leadingKeyword?).filter Keyword.turnsBlocks

/-- The open blocks of a text follow from these words. -/
theorem openBlocks_lines (cs : List Char) : openBlocks (lines cs) = (blockWords cs).foldl openAfter [] := by
  have hskip : ∀ blocks word,
      openAfter blocks word = if word.turnsBlocks then openAfter blocks word else blocks := by
    intro blocks word
    cases word <;> rfl
  rw [openBlocks_eq, blockWords, List.foldl_filter]
  congr 1
  funext blocks word
  exact hskip blocks word

/-- A line with a reserved word alone starts with it. -/
theorem leadingKeyword?_text (k : Keyword) : leadingKeyword? k.text.toList = some k := by
  have hplain : ∀ c ∈ k.text.toList, IsPlain c := fun c hc =>
    isPlain_of_isIdentRest (isIdentRest_of_mem (isIdentifier_text k) c hc)
  have hsolid : Solid k.text.toList := by
    obtain ⟨c, more, htext, -⟩ := isIdentifier_iff.mp (isIdentifier_text k)
    exact solid_of_isPlain (by rw [htext]; exact List.cons_ne_nil c more) hplain
  have hword := leadingKeyword?_append hsolid (fun c hc => (hplain c hc).1) []
  rw [openLine_append hsolid.newline_notMem, nextWord_of_hasNoCode hasNoCode_nil, List.append_nil,
    String.ofList_toList, ofText?_text] at hword
  simpa [openLine] using hword

/-- An empty line starts with no word. -/
theorem leadingKeyword?_nil : leadingKeyword? [] = none := leadingKeyword?_of_hasNoCode hasNoCode_nil

/-! ## The end of a text -/

/-- The text without the line feeds at its end. -/
def withoutFinalFeeds (cs : List Char) : List Char := dropTrailing (· == '\n') cs

/-- It has the lines of the text, but for empty ones at the end. -/
theorem exists_lines_eq (cs : List Char) :
    ∃ n, lines cs = lines (withoutFinalFeeds cs) ++ List.replicate n [] := by
  have hfeeds : ∀ (n : Nat) (text : List Char),
      lines (text ++ List.replicate n '\n') = lines text ++ List.replicate n [] := by
    intro n
    induction n with
    | zero => intro text; rw [List.replicate_zero, List.append_nil, List.replicate_zero, List.append_nil]
    | succ n ih =>
        intro text
        have hlast : lines (List.replicate n '\n') = [] :: List.replicate n [] := ih []
        rw [List.replicate_succ, lines_append_newline, hlast, List.replicate_succ]
  have hall : ∀ c ∈ cs.reverse.takeWhile (· == '\n'), c = '\n' := by
    intro c hc
    have hfeed := List.mem_takeWhile_imp hc
    exact eq_of_beq hfeed
  have hsplit : cs = withoutFinalFeeds cs
      ++ List.replicate (cs.reverse.takeWhile (· == '\n')).length '\n' := by
    rw [← List.reverse_replicate, ← List.eq_replicate_of_mem hall, withoutFinalFeeds, dropTrailing,
      ← List.reverse_append, List.takeWhile_append_dropWhile, List.reverse_reverse]
  exact ⟨_, by conv_lhs => rw [hsplit, hfeeds]⟩

/-- It is the start of the text. -/
theorem withoutFinalFeeds_isPrefix (cs : List Char) : withoutFinalFeeds cs <+: cs := by
  rw [← List.reverse_suffix, withoutFinalFeeds, dropTrailing, List.reverse_reverse]
  exact List.dropWhile_suffix _

/-- Its lines start with the same words. -/
theorem filterMap_withoutFinalFeeds (cs : List Char) :
    (lines (withoutFinalFeeds cs)).filterMap leadingKeyword? = (lines cs).filterMap leadingKeyword? := by
  obtain ⟨n, hlines⟩ := exists_lines_eq cs
  rw [hlines, List.filterMap_append]
  simp [leadingKeyword?_nil]

/-! ## The repair -/

/-- The lines that close blocks. -/
def closingText (opened : List BlockKind) : List Char :=
  opened.flatMap fun kind => kind.closer.text.toList ++ ['\n']

/-- They hold the closing words, one on each line. -/
theorem lines_closingText (opened : List BlockKind) :
    lines (closingText opened) = opened.map (·.closer.text.toList) ++ [[]] := by
  induction opened with
  | nil => rfl
  | cons kind opened ih =>
      have hsplit : closingText (kind :: opened)
          = kind.closer.text.toList ++ '\n' :: closingText opened := by
        simp [closingText]
      rw [hsplit, lines_append_newline, lines_of_notMem (newline_notMem_text _), ih]
      rfl

/-- The repairs that close blocks at the end of a text. -/
def closings (cs : List Char) (opened : List BlockKind) : List Repair :=
  opened.map fun kind => ⟨(lines cs).length, .block, "<unclosed>", kind.closer.text⟩

/-- A text with the given blocks open at its end is kept where there are none; otherwise the lines that
close them are put after its last line that is not empty. -/
theorem repairBlocks_of_open {cs : List Char} {opened : List BlockKind}
    (h : openBlocks (lines cs) = opened.map BlockKind.opener) :
    repairBlocks cs =
      if opened = [] then ⟨cs, []⟩
      else ⟨withoutFinalFeeds cs ++ '\n' :: closingText opened, closings cs opened⟩ := by
  have hclosers : (opened.map BlockKind.opener).map closerOf = opened.map (·.closer.text) := by
    rw [List.map_map]
    exact List.map_congr_left fun kind _ => kind.closerOf_opener
  unfold repairBlocks
  dsimp only
  split
  · rename_i hnone
    rw [h, List.map_eq_nil_iff] at hnone
    rw [if_pos hnone]
  · rename_i hsome
    have hne : opened ≠ [] := by
      rintro rfl
      exact hsome h
    rw [if_neg hne, h, hclosers, List.flatMap_map, List.map_map]
    rfl

/-- The words of the closed text are those of the text and the closing words. -/
theorem filterMap_closed (cs : List Char) (opened : List BlockKind) :
    (lines (withoutFinalFeeds cs ++ '\n' :: closingText opened)).filterMap leadingKeyword?
      = (lines cs).filterMap leadingKeyword? ++ opened.map BlockKind.closer := by
  rw [lines_append_newline, List.filterMap_append, filterMap_withoutFinalFeeds, lines_closingText,
    List.filterMap_append, List.filterMap_map]
  have hwords : (leadingKeyword? ∘ fun kind : BlockKind => kind.closer.text.toList)
      = some ∘ BlockKind.closer := by
    funext kind
    exact leadingKeyword?_text kind.closer
  rw [hwords, List.filterMap_eq_map, List.filterMap_cons_none leadingKeyword?_nil, List.filterMap_nil,
    List.append_nil]

/-- Closing words open and close blocks. -/
theorem filter_closers (opened : List BlockKind) :
    (opened.map BlockKind.closer).filter Keyword.turnsBlocks = opened.map BlockKind.closer := by
  rw [List.filter_eq_self]
  intro word hword
  obtain ⟨kind, -, rfl⟩ := List.mem_map.mp hword
  cases kind <;> rfl

/-- Where the lines of a text open and close blocks in the start of a well-nested sequence, the repair
completes it: after the text up to its last line feeds come the words that close the blocks left open,
one on each line and the innermost first, with one repair for each.  A complete text is kept. -/
theorem repairBlocks_completes {cs : List Char} {more : List Keyword}
    (h : WellNested (blockWords cs ++ more)) :
    ∃ opened, LeavesOpen (blockWords cs) opened ∧
      blockWords (repairBlocks cs).text = blockWords cs ++ opened.map BlockKind.closer ∧
      WellNested (blockWords (repairBlocks cs).text) ∧
      withoutFinalFeeds cs <+: (repairBlocks cs).text ∧
      (repairBlocks cs).repairs = closings cs opened ∧
      (WellNested (blockWords cs) → repairBlocks cs = ⟨cs, []⟩) ∧
      (¬ WellNested (blockWords cs) →
        (repairBlocks cs).text = withoutFinalFeeds cs ++ '\n' :: closingText opened) := by
  obtain ⟨opened, hopened⟩ := exists_leavesOpen h
  have hopen : openBlocks (lines cs) = opened.map BlockKind.opener := by
    rw [openBlocks_lines, foldl_openAfter_of_leavesOpen hopened, List.append_nil]
  have hrepair := repairBlocks_of_open hopen
  have hwords : blockWords (repairBlocks cs).text = blockWords cs ++ opened.map BlockKind.closer := by
    rw [hrepair]
    split
    · rename_i hnil
      rw [hnil, List.map_nil, List.append_nil]
    · rw [blockWords, filterMap_closed, List.filter_append, filter_closers, ← blockWords]
  refine ⟨opened, hopened, hwords, ?_, ?_, ?_, ?_, ?_⟩
  · rw [hwords]
    exact hopened.wellNested
  · rw [hrepair]
    split
    · exact withoutFinalFeeds_isPrefix cs
    · exact List.prefix_append _ _
  · rw [hrepair]
    split
    · rename_i hnil
      rw [hnil]
      rfl
    · rfl
  · intro hnested
    rw [hrepair, if_pos (hopened.eq_nil_iff.mpr hnested)]
  · intro hnested
    rw [hrepair, if_neg (mt hopened.eq_nil_iff.mp hnested)]

/-- A conditional in a loop, cut off inside a further loop, with blank lines at the end. -/
theorem repairBlocks_completes_cut :
    WellNested (blockWords "FOREACH $a IN $b\nIF $a # x\nELSE\nFOREACH $c IN $d\n\n".toList
      ++ [.endForeach, .endBranch, .endForeach]) ∧
    (repairBlocks "FOREACH $a IN $b\nIF $a # x\nELSE\nFOREACH $c IN $d\n\n".toList).text
      = "FOREACH $a IN $b\nIF $a # x\nELSE\nFOREACH $c IN $d\nENDFOREACH\nENDIF\nENDFOREACH\n".toList := by
  let text := "FOREACH $a IN $b\nIF $a # x\nELSE\nFOREACH $c IN $d\n\n"
  have hwords : blockWords text.toList = [.foreach, .branch, .foreach] := by decide +kernel
  have hnested : WellNested (blockWords text.toList ++ [.endForeach, .endBranch, .endForeach]) := by
    rw [hwords]
    have hinner : WellNested [.foreach, .endForeach] := .block .foreach .nil .nil
    have hbranch : WellNested [.branch, .foreach, .endForeach, .endBranch] := .block .branch hinner .nil
    have hall : WellNested
        [.foreach, .branch, .foreach, .endForeach, .endBranch, .endForeach] :=
      .block .foreach hbranch .nil
    exact hall
  obtain ⟨opened, hopened, -, -, -, -, -, htext⟩ := repairBlocks_completes hnested
  have hleft : opened.map BlockKind.opener = [.foreach, .branch, .foreach] := by
    have hopen := foldl_openAfter_of_leavesOpen hopened []
    rw [hwords, List.append_nil] at hopen
    exact hopen.symm
  have hincomplete : ¬ WellNested (blockWords text.toList) := by
    intro hcomplete
    rw [hopened.eq_nil_iff.mpr hcomplete] at hleft
    cases hleft
  refine ⟨hnested, (htext hincomplete).trans ?_⟩
  obtain rfl : opened = [.foreach, .branch, .foreach] := by
    refine List.map_injective_iff.mpr ?_ hleft
    intro a b
    cases a <;> cases b <;> simp [BlockKind.opener]
  decide +kernel

end Rubric.Script
