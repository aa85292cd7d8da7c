import Mathlib.Data.List.Perm.Subperm
import Rubric.Proofs.Script.Concatenation
import Rubric.Proofs.Script.LineWords

/-!
# Repairing blocks of a script

The repair of blocks keeps count of the words that lines start with, the parser of the blocks that are
open.  On a script the repair never has more blocks open than the parser, so it closes none.  It may have
fewer: where a condition stands right after its `IF`, the conditional goes unnoticed, and its further
branches are taken for orphans.

* `ParseState.openWords` : the words of the blocks that are open once the current line is read;
* `turns_of_step` : what the first token of a line does to them;
* `subperm_openWords_of_run`, `isOrphanFree_of_run` : what the repair keeps of them;
* `repair_of_parse` : what the repair of blocks does to a script.
-/

namespace Rubric.Script

open Rubric.Text

/-! ## The repair and the words of lines -/

/-- The open blocks after a line that starts with a word, the innermost first. -/
def openAfter (blocks : List Keyword) : Keyword → List Keyword
  | .branch => .branch :: blocks
  | .foreach => .foreach :: blocks
  | .endBranch => blocks.erase .branch
  | .endForeach => blocks.erase .foreach
  | _ => blocks

/-- How many conditionals are open after a line that starts with a word; `none` from the first further
branch outside any on. -/
def depthAfter? : Option Nat → Keyword → Option Nat
  | none, _ => none
  | some depth, word =>
    if depth = 0 && (furtherBranch? (some word)).isSome then none else some (depthAfter depth (some word))

/-- Whether all further branches stand in a conditional, by the words that lines start with. -/
def isOrphanFree (words : List Keyword) : Bool := (words.foldl depthAfter? (some 0)).isSome

/-- The open blocks follow from the words of the lines. -/
theorem openBlocks_eq (ls : List (List Char)) :
    openBlocks ls = (ls.filterMap leadingKeyword?).foldl openAfter [] := by
  rw [openBlocks]
  generalize ([] : List Keyword) = blocks
  induction ls generalizing blocks with
  | nil => rfl
  | cons line ls ih =>
      rw [List.foldl_cons, ih]
      cases hword : leadingKeyword? line with
      | none => rw [List.filterMap_cons_none hword, openBlocksAfter, hword]
      | some word =>
          rw [List.filterMap_cons_some hword, List.foldl_cons, openBlocksAfter, hword]
          cases word <;> rfl

/-- An orphan stays one. -/
theorem foldl_depthAfter?_none (words : List Keyword) : words.foldl depthAfter? none = none := by
  induction words with
  | nil => rfl
  | cons word words ih => exact ih

/-- Orphans are found by the words of the lines. -/
theorem removeOrphans_eq_nil_iff (number depth : Nat) (ls : List (List Char)) :
    (removeOrphans number depth ls).2 = [] ↔
      ((ls.filterMap leadingKeyword?).foldl depthAfter? (some depth)).isSome = true := by
  induction ls generalizing number depth with
  | nil => exact iff_of_true rfl rfl
  | cons line ls ih =>
      have hrest := ih (number + 1) (depthAfter depth (leadingKeyword? line))
      cases hword : leadingKeyword? line with
      | none =>
          rw [hword] at hrest
          have horphan : orphan? depth line = none := by
            rw [orphan?, hword]
            split <;> rfl
          rw [List.filterMap_cons_none hword, removeOrphans, hword, horphan]
          exact hrest
      | some word =>
          rw [hword] at hrest
          rw [List.filterMap_cons_some hword, List.foldl_cons, depthAfter?, removeOrphans, hword, orphan?,
            hword]
          by_cases hdepth : depth = 0
          · cases hbranch : furtherBranch? (some word) with
            | none => simpa [hdepth] using hrest
            | some other => simp [hdepth, foldl_depthAfter?_none]
          · simpa [hdepth] using hrest

/-- Lines without orphans are kept. -/
theorem removeOrphans_kept {number depth : Nat} {ls : List (List Char)}
    (h : (removeOrphans number depth ls).2 = []) : (removeOrphans number depth ls).1 = ls := by
  induction ls generalizing number depth with
  | nil => rfl
  | cons line ls ih =>
      rw [removeOrphans] at h ⊢
      cases horphan : orphan? depth line with
      | none =>
          rw [horphan] at h
          exact congrArg (line :: ·) (ih h)
      | some word =>
          rw [horphan] at h
          cases h

/-- A text stays as it is where the words of its lines have no orphans, and only there. -/
theorem repairOrphans_eq_iff (cs : List Char) :
    repairOrphans cs = ⟨cs, []⟩ ↔ isOrphanFree ((lines cs).filterMap leadingKeyword?) = true := by
  rw [isOrphanFree, ← removeOrphans_eq_nil_iff 1 0]
  constructor
  · exact fun h => congrArg Repaired.repairs h
  · intro h
    show Repaired.mk (unlines (removeOrphans 1 0 (lines cs)).1) (removeOrphans 1 0 (lines cs)).2 = _
    rw [removeOrphans_kept h, h, unlines_lines]

/-! ## Blocks of the parser -/

/-- The word that opens a block. -/
def Block.word : Block → Keyword
  | .foreach _ _ _ => .foreach
  | _ => .branch

/-- The words of the open blocks once a line is read; `begins` where it begins a statement.  A line that
begins none and is meant to be complete closes a block. -/
def LineKind.turn (begins : Bool) (words : List Keyword) : LineKind → List Keyword
  | .foreach => .foreach :: words
  | .branch => if begins then .branch :: words else words
  | .complete => if begins then words else words.tail
  | _ => words

/-- Within a line its meaning stays. -/
theorem line_next {state : LexState} {token : Token} (hstart : state.atLineStart = false)
    (hinline : token ≠ .newline) : (state.next token).line = state.line := by
  have hnot : ¬ state.atLineStart = true := by simp [hstart]
  cases token with
  | newline => exact absurd rfl hinline
  | keyword k =>
      show (state.afterKeyword k).line = state.line
      rw [LexState.afterKeyword, if_neg hnot]
      split <;> rfl
  | name ident =>
      show state.afterName.line = state.line
      rw [LexState.afterName, if_neg hnot]
      split <;> rfl
  | var ident =>
      show state.afterVar.line = state.line
      rw [LexState.afterVar, if_neg hnot]
      split <;> rfl
  | number digits => rfl
  | str value => rfl
  | sign sign =>
      show (state.afterSign sign).line = state.line
      unfold LexState.afterSign
      split <;> rfl

namespace ParseState

/-- The automaton is at the start of a line where the parser is. -/
theorem atLineStart_place {s : ParseState} (h : s.focus ≠ .lineStart) : s.place.atLineStart = false := by
  obtain ⟨f, statements, blocks⟩ := s
  cases f with
  | lineStart => exact absurd rfl h
  | operand goal frames =>
      obtain ⟨negated, close, hphase⟩ := operandPhase_eq frames
      show LexState.atLineStart ⟨operandPhase frames, goal.lineKind⟩ = false
      rw [hphase]
      rfl
  | lineEnd completed => cases completed <;> rfl
  | _ => rfl

/-- The words of the blocks that are open once the current line is read, the innermost first. -/
def openWords (s : ParseState) : List Keyword :=
  s.place.line.turn s.focus.opener.isSome (s.blocks.map fun entry => entry.1.word)

variable {line : Nat} {token : Token} {s s' : ParseState}

/-- What a line opens or closes is known before it ends. -/
theorem openWords_newline (hs : s.step line .newline = some s') : s'.openWords = s.openWords := by
  cases transition_of_step hs with
  | advance h => exact absurd rfl h.ne_newline
  | margin => rfl
  | begin h => exact absurd rfl h.ne_newline
  | «continue» h => exact absurd rfl h.ne_newline
  | complete h | enter h | switch h | leave h => cases h <;> rfl

/-- So it is from the first token of the line on. -/
theorem openWords_within (hs : s.step line token = some s') (hstart : s.focus ≠ .lineStart) :
    s'.openWords = s.openWords := by
  cases transition_of_step hs with
  | @advance f f' _ h statements blocks =>
      have hline : (place ⟨f', statements, blocks⟩).line = (place ⟨f, statements, blocks⟩).line := by
        rw [place_advances h, line_next (atLineStart_place hstart) h.ne_newline]
      rw [openWords, openWords, hline, h.opener_eq]
  | margin | begin | «continue» => exact absurd rfl hstart
  | complete | enter | switch | leave => exact openWords_newline hs

end ParseState

/-- What the first token of a line makes of the words of the blocks around it. -/
inductive Turns : Token → List Keyword → List Keyword → Prop where
  | opens {word : Keyword} {words : List Keyword} (h : word = .branch ∨ word = .foreach) :
    Turns (.keyword word) words (word :: words)
  | closesBranch (words : List Keyword) : Turns (.keyword .endBranch) (.branch :: words) words
  | closesForeach (words : List Keyword) : Turns (.keyword .endForeach) (.foreach :: words) words
  | goesOn {word : Keyword} {words : List Keyword} (h : word = .elif ∨ word = .otherwise) :
    Turns (.keyword word) (.branch :: words) (.branch :: words)
  | set (words : List Keyword) : Turns (.keyword .set) words words
  | name (ident : String) (words : List Keyword) : Turns (.name ident) words words
  | var (ident : String) (words : List Keyword) : Turns (.var ident) words words

namespace ParseState

variable {line : Nat} {token : Token} {s s' : ParseState}

/-- The first token of a line opens a block, closes the innermost one, goes over to its next branch, or
does nothing to the blocks. -/
theorem turns_of_step (hs : s.step line token = some s') (hstart : s.focus = .lineStart)
    (hinline : token ≠ .newline) : Turns token s.openWords s'.openWords := by
  cases transition_of_step hs with
  | advance h => exact absurd hstart h.ne_lineStart.1
  | margin => exact absurd rfl hinline
  | begin h =>
      cases h with
      | set => exact .set _
      | branch => exact .opens (.inl rfl)
      | foreach => exact .opens (.inr rfl)
      | name ident => exact .name ident _
      | var ident => exact .var ident _
  | «continue» h =>
      cases h with
      | elif => exact .goesOn (.inl rfl)
      | otherwise => exact .goesOn (.inr rfl)
      | endBranch | endOtherwise => exact .closesBranch _
      | endForeach => exact .closesForeach _
  | complete | enter | switch | leave => exact absurd rfl hinline

/-- Where a line has no open expression, only its end can follow. -/
theorem newline_of_lineEnd {completed : LineEnd} {statements : List Stmt}
    {blocks : List (Block × List Stmt)}
    (hs : (⟨.lineEnd completed, statements, blocks⟩ : ParseState).step line token = some s') :
    token = .newline := by
  cases transition_of_step hs with
  | advance h => cases h
  | _ => rfl

/-- After the word that closes a block the line ends, so it does not run into a token. -/
theorem runsInto_of_closing {first : Lexeme} {rest : List Lexeme} {t : ParseState} {k : Keyword}
    (hk : k = .endBranch ∨ k = .endForeach) (htoken : first.token = .keyword k)
    (hstart : s.focus = .lineStart) (hrun : s.run (first :: rest) = .ok t) :
    first.runsInto rest = false := by
  rw [run, htoken] at hrun
  split at hrun
  · rename_i next hstep
    have hend : ∃ completed, next.focus = .lineEnd completed := by
      rcases hk with rfl | rfl
      all_goals
        cases transition_of_step hstep with
        | advance h => exact absurd hstart h.ne_lineStart.1
        | begin h => cases h
        | «continue» h => cases h <;> exact ⟨_, rfl⟩
    obtain ⟨f, statements, blocks⟩ := next
    obtain ⟨completed, rfl⟩ := hend
    cases rest with
    | nil => rfl
    | cons after rest =>
        have hnewline : after.token = .newline := by
          rw [run] at hrun
          split at hrun
          · exact newline_of_lineEnd ‹_›
          · cases hrun
        rw [Lexeme.runsInto, hnewline]
        rfl
  · cases hrun

end ParseState

/-! ## Names that start lines -/

/-- No name is read that is spelled like a word that can stand in its place. -/
theorem accepts_keyword_of_readToken {phase : Phase} {cs : List Char} {ident : String} {n : Nat} {k : Keyword}
    (h : readToken phase.accepts cs = some (.name ident, n)) (hk : Keyword.ofText? ident = some k) :
    phase.accepts (.keyword k) = false := by
  obtain ⟨t, rest, rfl, rfl⟩ := exists_append_of_readToken h
  have hreads := Reads.of_readToken h
  cases hreads with
  | name hword hstop =>
      obtain ⟨hrun, c, more, rfl, hc⟩ := hword
      have hname : phase.accepts .name = true := accepts_of_readToken h
      rw [List.cons_append, readToken, if_pos hc, readWord, if_pos hname, ← List.cons_append,
        takeWhile_append_stop hrun hstop] at h
      by_contra haccepts
      simp only [hk, Bool.not_eq_false] at h haccepts
      rw [haccepts, if_pos rfl] at h
      cases h

/-- A name that starts a line is not spelled like the words that open blocks, which can stand there. -/
theorem not_opener_of_name (state : LexState) (p : Position) (cs : List Char) :
    ∀ opening ∈ openings state.atLineStart (tokensFrom state p cs).lexemes, ∀ first ∈ opening.head?,
      ∀ ident, first.token = .name ident →
        Keyword.ofText? ident ≠ some .branch ∧ Keyword.ofText? ident ≠ some .foreach := by
  induction state, p, cs using tokensFrom_induction with
  | nil state p =>
      intro opening hopening
      rw [tokensFrom_nil] at hopening
      cases hopening
  | blank state p c rest hc ih =>
      rw [tokensFrom_blank _ _ hc]
      exact ih
  | comment state p comment rest hfeed hline ih =>
      rw [tokensFrom_comment _ _ hfeed hline]
      exact ih
  | stuck state p c rest hskip hread =>
      intro opening hopening
      rw [tokensFrom_stuck hskip hread] at hopening
      cases hopening
  | token state p token t rest hread ih =>
      intro opening hopening
      rw [tokensFrom_token p hread, TokenStream.prepend, openings] at hopening
      rw [atLineStart_next] at ih
      split at hopening
      · rename_i hstarts
        rcases List.mem_cons.mp hopening with rfl | hlater
        · rintro _ ⟨⟩ ident htoken
          obtain rfl : token = .name ident := htoken
          have hstart : state.atLineStart = true := (Bool.and_eq_true_iff.mp hstarts).1
          -- at a line start such a word is read as the keyword that it spells
          have hopens : state.phase.accepts (.keyword .branch) = true ∧
              state.phase.accepts (.keyword .foreach) = true := by
            unfold LexState.atLineStart at hstart
            split at hstart
            · rename_i hphase
              rw [hphase]
              exact ⟨rfl, rfl⟩
            · rename_i previous hphase
              rw [hphase]
              cases previous <;> exact ⟨rfl, rfl⟩
            · cases hstart
          constructor <;> intro hk
          · rw [accepts_keyword_of_readToken hread hk] at hopens
            cases hopens.1
          · rw [accepts_keyword_of_readToken hread hk] at hopens
            cases hopens.2
        · exact ih opening hlater
      · exact ih opening hopening

/-! ## What the repair keeps of them -/

/-- A word that opens no block opens none in the repair. -/
theorem openAfter_subperm {word : Keyword} (hbranch : word ≠ .branch) (hforeach : word ≠ .foreach)
    (blocks : List Keyword) : (openAfter blocks word).Subperm blocks := by
  cases word with
  | branch => exact absurd rfl hbranch
  | foreach => exact absurd rfl hforeach
  | endBranch => exact List.erase_subperm .branch blocks
  | endForeach => exact List.erase_subperm .foreach blocks
  | _ => exact List.Subperm.refl _

namespace Turns

variable {token : Token} {before after spotted : List Keyword}

/-- After a word that the repair finds it has no more blocks open than the parser. -/
theorem subperm_openAfter {word : Keyword} (h : Turns (.keyword word) before after)
    (hspotted : spotted.Subperm before) : (openAfter spotted word).Subperm after := by
  cases h with
  | opens hword => rcases hword with rfl | rfl <;> exact (List.subperm_cons _).mpr hspotted
  | closesBranch => simpa [openAfter] using hspotted.erase .branch
  | closesForeach => simpa [openAfter] using hspotted.erase .foreach
  | goesOn hword => rcases hword with rfl | rfl <;> exact hspotted
  | set => exact hspotted

/-- Nor has it after a token that closes no block. -/
theorem subperm (h : Turns token before after) (hspotted : spotted.Subperm before)
    (hbranch : token ≠ .keyword .endBranch) (hforeach : token ≠ .keyword .endForeach) :
    spotted.Subperm after := by
  cases h with
  | opens => exact hspotted.cons_right _
  | closesBranch => exact absurd rfl hbranch
  | closesForeach => exact absurd rfl hforeach
  | _ => exact hspotted

/-- So it has no more after the first token of a line, where the words that close blocks are found and no
name is taken for one that opens them. -/
theorem subperm_leadingWord {first : Lexeme} {rest : List Lexeme} (h : Turns first.token before after)
    (hspotted : spotted.Subperm before)
    (hclosing : ∀ k, k = .endBranch ∨ k = .endForeach → first.token = .keyword k →
      first.runsInto rest = false)
    (hname : ∀ ident, first.token = .name ident →
      Keyword.ofText? ident ≠ some .branch ∧ Keyword.ofText? ident ≠ some .foreach) :
    ((first.leadingWord? rest).toList.foldl openAfter spotted).Subperm after := by
  rw [Lexeme.leadingWord?]
  split
  · rename_i hruns
    refine h.subperm hspotted ?_ ?_
    · intro htoken
      rw [hclosing _ (.inl rfl) htoken] at hruns
      cases hruns
    · intro htoken
      rw [hclosing _ (.inr rfl) htoken] at hruns
      cases hruns
  · cases htoken : first.token with
    | keyword word =>
        rw [htoken] at h
        exact h.subperm_openAfter hspotted
    | name ident =>
        rw [htoken] at h
        have hafter := h.subperm hspotted (by simp) (by simp)
        obtain ⟨hbranch, hforeach⟩ := hname ident htoken
        rw [Token.reserved?]
        cases hword : Keyword.ofText? ident with
        | none => exact hafter
        | some word =>
            rw [hword] at hbranch hforeach
            exact (openAfter_subperm (by simpa using hbranch) (by simpa using hforeach) _).trans hafter
    | _ =>
        rw [htoken] at h
        exact h.subperm hspotted (by simp) (by simp)

/-- The repair has at least as many conditionals open as the parser after a token of which it knows at
least that it opens one. -/
theorem count_le {depth : Nat} (h : Turns token before after) (hdepth : before.count .branch ≤ depth)
    (hbranch : token ≠ .keyword .branch) : after.count .branch ≤ depth := by
  cases h with
  | opens hword =>
      rcases hword with rfl | rfl
      · exact absurd rfl hbranch
      · simpa using hdepth
  | closesBranch => exact (List.count_le_count_cons ..).trans hdepth
  | closesForeach => simpa using hdepth
  | _ => exact hdepth

/-- And no further branch is an orphan to it. -/
theorem exists_depthAfter? {word : Keyword} {depth : Nat} (h : Turns (.keyword word) before after)
    (hdepth : before.count .branch ≤ depth) :
    ∃ depth', depthAfter? (some depth) word = some depth' ∧ after.count .branch ≤ depth' := by
  cases h with
  | opens hword =>
      rcases hword with rfl | rfl
      · exact ⟨depth + 1, by simp [depthAfter?, furtherBranch?, depthAfter], by simpa using hdepth⟩
      · exact ⟨depth, by simp [depthAfter?, furtherBranch?, depthAfter], by simpa using hdepth⟩
  | closesBranch =>
      rw [List.count_cons_self] at hdepth
      exact ⟨depth - 1, by simp [depthAfter?, furtherBranch?, depthAfter], Nat.le_sub_one_of_lt hdepth⟩
  | closesForeach =>
      exact ⟨depth, by simp [depthAfter?, furtherBranch?, depthAfter], by simpa using hdepth⟩
  | goesOn hword =>
      have hopen : depth ≠ 0 := by
        rw [List.count_cons_self] at hdepth
        omega
      rcases hword with rfl | rfl <;> exact ⟨depth, by simp [depthAfter?, depthAfter, hopen], hdepth⟩
  | set => exact ⟨depth, by simp [depthAfter?, furtherBranch?, depthAfter], hdepth⟩

/-- So it is after the first token of a line, where the repair finds the words that open conditionals and
takes no name for a further branch or for the end of a conditional. -/
theorem exists_depth_leadingWord {first : Lexeme} {rest : List Lexeme} {depth : Nat}
    (h : Turns first.token before after) (hdepth : before.count .branch ≤ depth)
    (hopening : first.token = .keyword .branch → first.runsInto rest = false)
    (hname : ∀ ident k, first.token = .name ident → Keyword.ofText? ident = some k →
      k ≠ .elif ∧ k ≠ .otherwise ∧ k ≠ .endBranch) :
    ∃ depth', (first.leadingWord? rest).toList.foldl depthAfter? (some depth) = some depth' ∧
      after.count .branch ≤ depth' := by
  rw [Lexeme.leadingWord?]
  split
  · rename_i hruns
    refine ⟨depth, rfl, h.count_le hdepth fun htoken => ?_⟩
    rw [hopening htoken] at hruns
    cases hruns
  · cases htoken : first.token with
    | keyword word =>
        rw [htoken] at h
        exact h.exists_depthAfter? hdepth
    | name ident =>
        rw [htoken] at h
        have hafter := h.count_le hdepth (by simp)
        rw [Token.reserved?]
        cases hword : Keyword.ofText? ident with
        | none => exact ⟨depth, rfl, hafter⟩
        | some word =>
            obtain ⟨helif, hother, hend⟩ := hname ident word htoken hword
            have hfurther : furtherBranch? (some word) = none := by
              cases word <;> first | rfl | contradiction
            have hle : depth ≤ depthAfter depth (some word) := by
              cases word <;> first | exact Nat.le_refl _ | exact Nat.le_succ _ | contradiction
            exact ⟨depthAfter depth (some word), by simp [depthAfter?, hfurther], hafter.trans hle⟩
    | _ =>
        rw [htoken] at h
        exact ⟨depth, rfl, h.count_le hdepth (by simp)⟩

end Turns

/-! ## Runs -/

/-- What is known of a lexeme that starts a line of a script, and of those after it. -/
structure HeadsLine (fresh : Bool) (lexemes : List Lexeme) (first : Lexeme) (rest : List Lexeme) :
    Prop where
  suffix : first :: rest <:+ lexemes
  opening : first.token.opens = true → first :: rest ∈ openings fresh lexemes
  closing : ∀ k, k = .endBranch ∨ k = .endForeach → first.token = .keyword k →
    first.runsInto rest = false

/-- It does so after another lexeme. -/
theorem HeadsLine.cons {fresh : Bool} {lexemes rest : List Lexeme} {lexeme first : Lexeme}
    (h : HeadsLine (decide (lexeme.token = .newline)) lexemes first rest) :
    HeadsLine fresh (lexeme :: lexemes) first rest where
  suffix := h.suffix.trans (List.suffix_cons _ _)
  opening := by
    intro hopens
    rw [openings]
    split
    · exact List.mem_cons_of_mem _ (h.opening hopens)
    · exact h.opening hopens
  closing := h.closing

/-- What the words of the lines keep up with the open blocks, line by line, they do for a whole script. -/
theorem foldl_lineWords_of_run {α : Type} {f : α → Keyword → α} {Keeps : α → List Keyword → Prop}
    {lexemes : List Lexeme} {s t : ParseState} {fresh : Bool} {a : α} (hrun : s.run lexemes = .ok t)
    (hfresh : fresh = true ↔ s.focus = .lineStart)
    (hline : ∀ first rest before after a, HeadsLine fresh lexemes first rest →
      Turns first.token before after → Keeps a before →
      Keeps ((first.leadingWord? rest).toList.foldl f a) after)
    (h : Keeps a s.openWords) : Keeps ((lineWords fresh lexemes).foldl f a) t.openWords := by
  induction lexemes generalizing s fresh a with
  | nil =>
      cases hrun
      exact h
  | cons first rest ih =>
      have hall := hrun
      rw [ParseState.run] at hrun
      split at hrun
      · rename_i next hstep
        have hnext : decide (first.token = .newline) = true ↔ next.focus = .lineStart := by
          rw [decide_eq_true_iff]
          exact ParseState.newline_iff_of_step hstep
        by_cases hwithin : fresh = false ∨ first.token = .newline
        · -- the token does nothing to the blocks, and its line adds no word
          have hwords : next.openWords = s.openWords := by
            rcases hwithin with hmid | hnewline
            · refine ParseState.openWords_within hstep fun hfocus => ?_
              rw [hfresh.mpr hfocus] at hmid
              cases hmid
            · rw [hnewline] at hstep
              exact ParseState.openWords_newline hstep
          rw [lineWords_cons_of_within rest hwithin]
          refine ih hrun hnext (fun later more before after a hstarts => ?_) (by rwa [hwords])
          exact hline later more before after a hstarts.cons
        · rw [not_or, Bool.not_eq_false] at hwithin
          obtain ⟨rfl, hinline⟩ := hwithin
          have hstart := hfresh.mp rfl
          have hfirst : HeadsLine true (first :: rest) first rest :=
            ⟨List.suffix_refl _, fun hopens => by simp [openings, hopens],
              fun k hk htoken => ParseState.runsInto_of_closing hk htoken hstart hall⟩
          have hturns := ParseState.turns_of_step hstep hstart hinline
          rw [lineWords, if_pos rfl, List.foldl_append]
          refine ih hrun hnext (fun later more before after a hstarts => ?_)
            (hline first rest _ _ _ hfirst hturns h)
          exact hline later more before after a hstarts.cons
      · cases hrun

/-! ## Scripts -/

/-- Whether every `IF` stands apart from its condition. -/
def conditionsApart : List Lexeme → Bool
  | [] => true
  | first :: rest => (first.token != .keyword .branch || !first.runsInto rest) && conditionsApart rest

/-- No `IF` runs into its condition then. -/
theorem runsInto_of_suffix {lexemes rest : List Lexeme} {first : Lexeme}
    (h : conditionsApart lexemes = true) (hsuffix : first :: rest <:+ lexemes)
    (htoken : first.token = .keyword .branch) : first.runsInto rest = false := by
  induction lexemes with
  | nil =>
      rw [List.suffix_nil] at hsuffix
      cases hsuffix
  | cons lexeme lexemes ih =>
      rw [conditionsApart, Bool.and_eq_true] at h
      rcases List.suffix_cons_iff.mp hsuffix with heq | hlater
      · cases heq
        simpa [htoken] using h.1
      · exact ih h.2 hlater

/-- A name that starts a line of a script is the function of a call statement. -/
theorem exists_callee_of_name {text : String} {p : Program} (h : parse text = .ok p)
    {opening : List Lexeme} (hopening : opening ∈ openings true (tokens text.toList).lexemes)
    {first : Lexeme} (hfirst : first ∈ opening.head?) {ident : String}
    (hname : first.token = .name ident) : ∃ s ∈ p.allStatements, s.callee? = some ident := by
  obtain ⟨hopens, -⟩ := lines_of_parse h
  obtain ⟨i, hi, rfl⟩ := List.getElem_of_mem hopening
  have hi' : i < p.allStatements.length := by rwa [← hopens.length_eq]
  obtain ⟨first', others, rest, -, -, hsplit, hrun, -⟩ := hopens.get hi hi'
  rw [List.get_eq_getElem] at hsplit
  rw [hsplit] at hfirst
  obtain rfl := Option.some.inj hfirst
  obtain ⟨start, args, hcall⟩ := ParseState.call_mem_of_name hname hrun
  exact ⟨p.allStatements.get ⟨i, hi'⟩, List.getElem_mem hi', by rw [← List.mem_singleton.mp hcall]; rfl⟩

/-- On a script the repair has no blocks open at the end. -/
theorem openBlocks_of_parse {text : String} {p : Program} (h : parse text = .ok p) :
    openBlocks (lines text.toList) = [] := by
  rw [openBlocks_eq, leadingKeywords_tokens (fault_of_parse h)]
  refine List.subperm_nil.mp (@foldl_lineWords_of_run _ openAfter List.Subperm _ _ _ true []
    (run_of_parse h) (iff_of_true rfl rfl) (fun first rest before after spotted hheads hturns hkeeps => ?_)
    (List.Subperm.refl []))
  refine hturns.subperm_leadingWord hkeeps hheads.closing fun ident htoken => ?_
  exact not_opener_of_name .initial ⟨1, 1⟩ text.toList _ (hheads.opening (by rw [htoken]; rfl)) first rfl
    ident htoken

/-- A script whose lines start with the words of its blocks has no orphans: every `IF` stands apart from
its condition, and no function is called that is named like a further branch or the end of a
conditional. -/
theorem isOrphanFree_of_parse {text : String} {p : Program} (h : parse text = .ok p)
    (hbranch : conditionsApart (tokens text.toList).lexemes = true)
    (hnames : ∀ s ∈ p.allStatements, s.callee? ≠ some "ELIF" ∧ s.callee? ≠ some "ELSE" ∧
      s.callee? ≠ some "ENDIF") :
    isOrphanFree (lineWords true (tokens text.toList).lexemes) = true := by
  obtain ⟨depth, hdepth, -⟩ := @foldl_lineWords_of_run _ depthAfter?
    (fun depth? words => ∃ depth, depth? = some depth ∧ words.count .branch ≤ depth) _ _ _ true (some 0)
    (run_of_parse h) (iff_of_true rfl rfl) (fun first rest before after a hheads hturns hkeeps => by
      obtain ⟨depth, rfl, hdepth⟩ := hkeeps
      refine hturns.exists_depth_leadingWord hdepth (runsInto_of_suffix hbranch hheads.suffix) ?_
      intro ident k htoken hk
      obtain ⟨s, hs, hcallee⟩ :=
        exists_callee_of_name h (hheads.opening (by rw [htoken]; rfl)) rfl htoken
      obtain ⟨helif, helse, hendif⟩ := hnames s hs
      rw [hcallee, ← text_of_ofText? hk] at helif helse hendif
      refine ⟨?_, ?_, ?_⟩ <;> rintro rfl
      · exact helif rfl
      · exact helse rfl
      · exact hendif rfl) ⟨0, rfl, Nat.le_refl _⟩
  rw [isOrphanFree, hdepth]
  rfl

/-- On a script the repair of blocks closes none.  It leaves further branches alone if and only if those
whose words it finds stand in conditionals that it finds, as they do where every `IF` stands apart from its
condition and no function is called that is named like a word of a conditional. -/
theorem repair_of_parse {text : String} {p : Program} (h : parse text = .ok p) :
    repairBlocks text.toList = ⟨text.toList, []⟩ ∧
    (repairOrphans text.toList = ⟨text.toList, []⟩ ↔
      isOrphanFree (lineWords true (tokens text.toList).lexemes) = true) ∧
    (conditionsApart (tokens text.toList).lexemes = true →
      (∀ s ∈ p.allStatements, s.callee? ≠ some "ELIF" ∧ s.callee? ≠ some "ELSE" ∧
        s.callee? ≠ some "ENDIF") →
      repairOrphans text.toList = ⟨text.toList, []⟩) := by
  have hwords := leadingKeywords_tokens (fault_of_parse h)
  have horphans : repairOrphans text.toList = ⟨text.toList, []⟩ ↔
      isOrphanFree (lineWords true (tokens text.toList).lexemes) = true := by
    rw [repairOrphans_eq_iff, hwords]
  refine ⟨?_, horphans, fun hbranch hnames => horphans.mpr (isOrphanFree_of_parse h hbranch hnames)⟩
  rw [repairBlocks, openBlocks_of_parse h]

/-- Blanks and comments after words, and further words that stand right before conditions. -/
theorem repair_of_parse_loop : ∃ p : Program,
    parse "FOREACH$r IN $a\n IF $r#one\n  f($r)\n ELIF(NOT $r)\n ELSE # two\n  g()\n ENDIF\nENDFOREACH\n"
      = .ok p ∧
    repairBlocks p.source.toList = ⟨p.source.toList, []⟩ ∧
    repairOrphans p.source.toList = ⟨p.source.toList, []⟩ := by
  let text :=
    "FOREACH$r IN $a\n IF $r#one\n  f($r)\n ELIF(NOT $r)\n ELSE # two\n  g()\n ENDIF\nENDFOREACH\n"
  have hcallees : (parse text).toOption.map (fun p => p.allStatements.map Stmt.callee?)
      = some [none, none, some "f", some "g"] := by
    decide +kernel
  have hapart : conditionsApart (tokens text.toList).lexemes = true := by decide +kernel
  cases hparse : parse text with
  | error fault =>
      rw [hparse] at hcallees
      cases hcallees
  | ok p =>
      rw [hparse] at hcallees
      have hcallees' : p.allStatements.map Stmt.callee? = [none, none, some "f", some "g"] :=
        Option.some.inj hcallees
      have hsource : p.source = text := (parse_eq_ok_iff.mp hparse).2
      obtain ⟨hblocks, -, horphans⟩ := repair_of_parse hparse
      refine ⟨p, rfl, ?_⟩
      rw [hsource]
      refine ⟨hblocks, horphans hapart fun s hs => ?_⟩
      have hothers : ∀ callee ∈ [none, none, some "f", some "g"],
          callee ≠ some "ELIF" ∧ callee ≠ some "ELSE" ∧ callee ≠ some "ENDIF" := by
        decide
      refine hothers _ ?_
      rw [← hcallees']
      exact List.mem_map_of_mem hs

/-- Where a condition stands right after its `IF`, the repair takes the further branch out of the script. -/
theorem not_repair_of_any_parse :
    ¬ ∀ (text : String) (p : Program), parse text = .ok p →
      repairOrphans text.toList = ⟨text.toList, []⟩ ∧ repairBlocks text.toList = ⟨text.toList, []⟩ := by
  intro hall
  let text := "IF($x)
 SET $a = 1
ELSE
 SET $a = 2
ENDIF
"
  have hread : (parse text).toOption.isSome = true := by decide +kernel
  have hrepair : repairOrphans text.toList
      = ⟨"IF($x)
 SET $a = 1
 SET $a = 2
ENDIF
".toList,
          [⟨3, .block, "ELSE", "<removed orphan ELSE>"⟩]⟩ := by
    decide +kernel
  cases hparse : parse text with
  | error fault =>
      rw [hparse] at hread
      cases hread
  | ok p =>
      have hsame := congrArg Repaired.repairs (hall text p hparse).1
      rw [hrepair] at hsame
      cases hsame

end Rubric.Script
