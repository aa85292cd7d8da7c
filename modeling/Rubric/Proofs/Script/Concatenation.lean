import Rubric.Proofs.Script.EarliestFault
import Rubric.Proofs.Script.LineNumbers
import Rubric.Proofs.Script.LineShift
import Rubric.Proofs.Script.Mentions
import Rubric.Proofs.Script.Seam

/-!
# One script after another

A parser that has read a script reads another one after it as it would alone: what it has read stands
before the statements of the second, which are on later lines.

* `ParseState.onto` : a parser with statements before those it has read;
* `call_mem_of_name` : a script that starts with a name starts with a call;
* `parse_append` : the statements of two scripts in a row.
-/

namespace Rubric.Script

open Rubric.Text

/-! ## Statements before others -/

/-- The statements of the innermost block and the open blocks, with statements before those of the
outermost. -/
def under (base : List Stmt) :
    List Stmt → List (Block × List Stmt) → List Stmt × List (Block × List Stmt)
  | ss, [] => (ss ++ base, [])
  | ss, (block, outer) :: blocks =>
    (ss, (block, (under base outer blocks).1) :: (under base outer blocks).2)

/-- A statement of the innermost block stays the last one. -/
theorem under_cons (base : List Stmt) (s : Stmt) (ss : List Stmt) (blocks : List (Block × List Stmt)) :
    under base (s :: ss) blocks = (s :: (under base ss blocks).1, (under base ss blocks).2) := by
  cases blocks <;> rfl

/-- The statements outside all blocks, the last first. -/
def outermost : List Stmt → List (Block × List Stmt) → List Stmt
  | ss, [] => ss
  | _, (_, outer) :: blocks => outermost outer blocks

namespace ParseState

/-- A parser that has read some statements before what it has read. -/
def onto (base : List Stmt) (s : ParseState) : ParseState :=
  ⟨s.focus, (under base s.statements s.blocks).1, (under base s.statements s.blocks).2⟩

variable {line : Nat} {token : Token} {s s' : ParseState}

/-- Statements before do not change what a token does, an empty first line apart. -/
theorem step_onto (base : List Stmt) (hs : s.step line token = some s')
    (hfresh : s.focus = .lineStart → token ≠ .newline) :
    (s.onto base).step line token = some (s'.onto base) := by
  cases transition_of_step hs with
  | advance h => exact (Transition.advance h _ _).step
  | margin => exact absurd rfl (hfresh rfl)
  | begin h => exact (Transition.begin h _ _).step
  | «continue» h => exact (Transition.continue h _ _ _).step
  | complete h =>
      unfold onto
      rw [under_cons]
      exact (Transition.complete h _ _).step
  | enter h => exact (Transition.enter h _ _).step
  | switch h => exact (Transition.switch h _ _).step
  | leave h =>
      unfold onto
      rw [under_cons]
      exact (Transition.leave h _ _).step

/-- Nor what the tokens of a text do. -/
theorem run_onto (base : List Stmt) {state : LexState} {p : Position} {cs : List Char}
    {lexemes : List Lexeme} (hscans : Scans state p cs lexemes) (hplace : state = s.place)
    (hrun : s.run lexemes = .ok s') : (s.onto base).run lexemes = .ok (s'.onto base) := by
  induction hscans generalizing s with
  | nil =>
      cases hrun
      rfl
  | blank _ _ ih => exact ih hplace hrun
  | comment _ _ _ ih => exact ih hplace hrun
  | @token state p token t rest lexemes _ haccepts _ ih =>
      rw [run] at hrun
      split at hrun
      · rename_i next hstep
        have hfresh : s.focus = .lineStart → token ≠ .newline := by
          rintro hfocus rfl
          rw [hplace, place, hfocus] at haccepts
          cases haccepts
        rw [run_cons _ (step_onto base hstep hfresh)]
        exact ih (by rw [hplace, place_step hstep hfresh]) hrun
      · cases hrun

/-- No token takes back what is complete outside all blocks. -/
theorem outermost_suffix (hs : s.step line token = some s') :
    outermost s.statements s.blocks <:+ outermost s'.statements s'.blocks := by
  cases transition_of_step hs with
  | complete h statements blocks =>
      cases blocks with
      | nil => exact List.suffix_cons _ statements
      | cons entry blocks => exact List.suffix_refl _
  | leave h outer blocks =>
      cases blocks with
      | nil => exact List.suffix_cons _ outer
      | cons entry blocks => exact List.suffix_refl _
  | _ => exact List.suffix_refl _

/-- Nor do several. -/
theorem outermost_suffix_of_run {lexemes : List Lexeme} (hrun : s.run lexemes = .ok s') :
    outermost s.statements s.blocks <:+ outermost s'.statements s'.blocks := by
  induction lexemes generalizing s with
  | nil =>
      cases hrun
      exact List.suffix_refl _
  | cons lexeme lexemes ih =>
      rw [run] at hrun
      split at hrun
      · rename_i next hstep
        exact (outermost_suffix hstep).trans (ih hrun)
      · cases hrun

/-! ## Calls -/

/-- Whether the arguments of a call of a function are open around all other open parts. -/
def Around (function : String) (frames : List Frame) : Prop :=
  ∃ args, frames.getLast? = some (.call function args)

/-- They are around a new part. -/
theorem Around.cons {function : String} {frames : List Frame} (h : Around function frames)
    (frame : Frame) : Around function (frame :: frames) := by
  obtain ⟨args, hlast⟩ := h
  exact ⟨args, by rw [List.getLast?_cons, hlast]; rfl⟩

/-- They are around what is left when a part inside them is closed. -/
theorem Around.of_cons {function : String} {frame : Frame} {frames : List Frame}
    (h : Around function (frame :: frames)) (hne : frames ≠ []) : Around function frames := by
  obtain ⟨args, hlast⟩ := h
  exact ⟨args, by rwa [List.getLast?_cons_of_ne_nil hne] at hlast⟩

/-- A part that is no call is inside them. -/
theorem Around.ne_nil {function : String} {frame : Frame} {frames : List Frame}
    (h : Around function (frame :: frames)) (hframe : ∀ callee args, frame ≠ .call callee args) :
    frames ≠ [] := by
  rintro rfl
  obtain ⟨args, hlast⟩ := h
  exact hframe function args (Option.some.inj hlast)

/-- They may be the ones that another argument follows in. -/
theorem Around.exchange {function callee : String} {args : List Expr} {frames : List Frame}
    (h : Around function (.call callee args :: frames)) (args' : List Expr) :
    Around function (.call callee args' :: frames) := by
  cases frames with
  | nil =>
      obtain ⟨args, hlast⟩ := h
      obtain ⟨rfl, -⟩ := Frame.call.inj (Option.some.inj hlast)
      exact ⟨args', rfl⟩
  | cons frame frames => exact (h.of_cons (by simp)).cons _

/-- They are around what is left when operators are closed. -/
theorem Around.reduce {function : String} {frames : List Frame} (h : Around function frames)
    (level : Nat) (e : Expr) : Around function (reduce level frames e).1 := by
  obtain ⟨args, hlast⟩ := h
  exact ⟨args, getLast?_reduce hlast rfl level e⟩

/-- Whether the current line is a call of a function. -/
def Calls (function : String) : Focus → Prop
  | .callOpen _ callee => callee = function
  | .operand (.call _) frames => Around function frames
  | .operator (.call _) frames _ _ => Around function frames
  | .member (.call _) frames _ => Around function frames
  | .lineEnd (.call _ callee _) => callee = function
  | _ => False

/-- A complete call is the one of the line, or inside it. -/
theorem calls_afterCall {function callee : String} {args : List Expr} {frames : List Frame} (start : Nat)
    (args' : List Expr) (h : Around function (.call callee args :: frames)) :
    Calls function (.afterCall (.call start) frames callee args') := by
  cases frames with
  | nil =>
      obtain ⟨args, hlast⟩ := h
      exact (Frame.call.inj (Option.some.inj hlast)).1
  | cons frame frames => exact h.of_cons (by simp)

/-- A binary operator stands in the call. -/
theorem Around.pushBinary {function : String} {frames frames' : List Frame} {value : Expr} {op : BinaryOp}
    (h : Around function frames) (hpush : Script.pushBinary op frames value = some frames') :
    Around function frames' := by
  obtain ⟨args, hlast⟩ := h
  exact ⟨args, getLast?_pushBinary hlast rfl hpush⟩

/-- What is left when everything in the innermost bracket is closed is in the call. -/
theorem Around.reduceAll {function : String} {frames rest : List Frame} {value inner : Expr}
    (h : Around function frames) (hreduce : Script.reduceAll frames value = (rest, inner)) :
    Around function rest := by
  have hclosed := h.reduce 0 value
  rwa [← Script.reduceAll, hreduce] at hclosed

/-- A token where an operand of a call is expected stays in the call. -/
theorem calls_of_operand {function : String} {start : Nat} {frames : List Frame} {f : Focus}
    (hadvances : (Focus.operand (.call start) frames).Advances token f) (h : Around function frames) :
    Calls function f := by
  cases hadvances with
  | number | str | bool | null | var | name => exact h
  | not | neg | paren | list => exact h.cons _
  | noItem => exact h.of_cons (h.ne_nil (by simp))
  | noArgument => exact calls_afterCall start [] h

/-- So does one after an operand. -/
theorem calls_of_operator {function : String} {start : Nat} {frames : List Frame} {value : Expr}
    {called : Option String} {f : Focus}
    (hadvances : (Focus.operator (.call start) frames value called).Advances token f)
    (h : Around function frames) : Calls function f := by
  cases hadvances with
  | dot => exact h
  | index | call => exact h.cons _
  | binarySign _ hpush | binaryWord _ hpush => exact h.pushBinary hpush
  | nextItem hreduce =>
      have hrest := h.reduceAll hreduce
      exact (hrest.of_cons (hrest.ne_nil (by simp))).cons _
  | nextArgument hreduce => exact (h.reduceAll hreduce).exchange _
  | closeParen hreduce | closeList hreduce | closeIndex hreduce =>
      have hrest := h.reduceAll hreduce
      exact hrest.of_cons (hrest.ne_nil (by simp))
  | closeCall hreduce => exact calls_afterCall start _ (h.reduceAll hreduce)

/-- A token within a line that is a call stays in the call. -/
theorem calls_advances {function : String} {f f' : Focus} (hadvances : f.Advances token f')
    (h : Calls function f) : Calls function f' := by
  cases f with
  | callOpen start callee =>
      obtain rfl : callee = function := h
      cases hadvances
      exact ⟨[], rfl⟩
  | operand goal frames =>
      cases goal with
      | call start => exact calls_of_operand hadvances h
      | _ => cases h
  | operator goal frames value called =>
      cases goal with
      | call start => exact calls_of_operator hadvances h
      | _ => cases h
  | member goal frames target =>
      cases goal with
      | call start =>
          cases hadvances
          exact h
      | _ => cases h
  | lineEnd completed => cases hadvances
  | _ => cases h

/-- A token of a line that is a call stays in the call, or ends the line and completes the call. -/
theorem calls_step {function : String} {focus : Focus} {statements : List Stmt}
    {blocks : List (Block × List Stmt)} (h : Calls function focus)
    (hs : (⟨focus, statements, blocks⟩ : ParseState).step line token = some s') :
    s'.statements = statements ∧ s'.blocks = blocks ∧ Calls function s'.focus ∨
      ∃ start args, s' = ⟨.lineStart, .call start function args :: statements, blocks⟩ := by
  cases transition_of_step hs with
  | advance hadvances => exact .inl ⟨rfl, rfl, calls_advances hadvances h⟩
  | complete hcompletes =>
      cases hcompletes with
      | assign => cases h
      | call start callee args =>
          obtain rfl : callee = function := h
          exact .inr ⟨start, args, rfl⟩
  | margin | begin | «continue» => cases h
  | enter hother | switch hother | leave hother => cases hother <;> cases h

/-- A script that starts with a call of a function has this call among its statements. -/
theorem call_mem_of_calls {function : String} {focus : Focus} {lexemes : List Lexeme}
    {statements : List Stmt} (h : Calls function focus)
    (hrun : (⟨focus, [], []⟩ : ParseState).run lexemes = .ok ⟨.lineStart, statements, []⟩) :
    ∃ start args, Stmt.call start function args ∈ statements := by
  induction lexemes generalizing focus with
  | nil =>
      cases hrun
      cases h
  | cons lexeme lexemes ih =>
      rw [run] at hrun
      split at hrun
      · rename_i next hstep
        rcases calls_step h hstep with ⟨hstatements, hblocks, hnext⟩ | ⟨start, args, rfl⟩
        · obtain ⟨f, ss, bs⟩ := next
          obtain rfl : ss = [] := hstatements
          obtain rfl : bs = [] := hblocks
          exact ih hnext hrun
        · have hsuffix := outermost_suffix_of_run hrun
          exact ⟨start, args, hsuffix.subset (by simp [outermost])⟩
      · cases hrun

/-- A script that starts with a name starts with a call. -/
theorem call_mem_of_name {first : Lexeme} {lexemes : List Lexeme} {ident : String}
    {statements : List Stmt} (hname : first.token = .name ident)
    (hrun : initial.run (first :: lexemes) = .ok ⟨.lineStart, statements, []⟩) :
    ∃ start args, Stmt.call start ident args ∈ statements := by
  rw [run, hname] at hrun
  have hcalls : Calls ident (.callOpen first.position.line ident) := rfl
  exact call_mem_of_calls hcalls hrun

end ParseState

/-! ## Two scripts in a row -/

/-- The function that a statement calls, where it is a call. -/
def Stmt.callee? : Stmt → Option String
  | .call _ function _ => some function
  | _ => none

/-- Line ends at the start of a script do nothing. -/
theorem run_lead {lead : List Lexeme} (hlead : ∀ lexeme ∈ lead, lexeme.token = .newline)
    (lexemes : List Lexeme) :
    ParseState.initial.run (lead ++ lexemes) = ParseState.initial.run lexemes := by
  induction lead with
  | nil => rfl
  | cons lexeme lead ih =>
      rw [List.forall_mem_cons] at hlead
      rw [List.cons_append, ParseState.run, hlead.1]
      exact ih hlead.2

/-- The characters of the last token do not matter. -/
theorem run_retext {s t : ParseState} {first : List Lexeme} {last : Lexeme}
    (hrun : s.run (first ++ [last]) = .ok t) (text : String) :
    s.run (first ++ [{ last with text := text }]) = .ok t := by
  obtain ⟨s', hfirst, hlast⟩ := ParseState.exists_run_of_append hrun
  rw [ParseState.run_append hfirst, ParseState.run]
  rw [ParseState.run] at hlast
  split at hlast
  · rename_i next hstep
    rw [hstep]
    exact hlast
  · cases hlast

/-- A statement of a list is among the statements in it. -/
theorem mem_walkAll_self {s : Stmt} {ss : List Stmt} (h : s ∈ ss) : s ∈ Stmt.walkAll ss := by
  obtain ⟨first, rest, rfl⟩ := List.append_of_mem h
  rw [walkAll_append, Stmt.walkAll]
  exact List.mem_append_right _ (List.mem_append_left _ s.self_mem_walk)

/-- Behind its margin a script is read as it is from its start. -/
theorem exists_run_margin {text : String} {q : Program} (h : parse text = .ok q) :
    ∃ state p code, LexState.IsLeading state ∧ marginLength false code = 0 ∧
      p = placeAfter ⟨1, 1⟩ (text.toList.take (marginLength false text.toList)) ∧
      code = text.toList.drop (marginLength false text.toList) ∧
      (tokensFrom state p code).fault = none ∧
      (∀ lexeme ∈ (tokensFrom state p code).lexemes, oversized? lexeme = none) ∧
      ParseState.initial.run (tokensFrom state p code).lexemes
        = .ok ⟨.lineStart, q.statements.reverse, []⟩ := by
  obtain ⟨state, lead, hstate, hlead, hmargin⟩ := exists_tokensFrom_margin (fault_of_parse h)
  have htokens : tokens text.toList = _ := hmargin
  have hfault := fault_of_parse h
  have hsmall := @oversized?_of_parse text.toList q (by rw [String.ofList_toList, h])
  have hrun := run_of_parse h
  rw [htokens] at hfault hsmall hrun
  rw [TokenStream.prependAll, run_lead hlead] at hrun
  exact ⟨state, _, _, hstate, marginLength_drop _, rfl, rfl, hfault,
    fun lexeme hlexeme => hsmall lexeme (List.mem_append_right _ hlexeme), hrun⟩

/-- What leads to some statements at the start of a script leads to them further down, where a line
starts after other statements: they are on later lines, with the others before them. -/
theorem run_below {state : LexState} (hstate : state.IsLeading) {p : Position} {code : List Char}
    (hmargin : marginLength false code = 0) (hfault : (tokensFrom state p code).fault = none)
    {statements : List Stmt}
    (hrun : ParseState.initial.run (tokensFrom state p code).lexemes = .ok ⟨.lineStart, statements, []⟩)
    (hnames : ∀ s ∈ statements, ∀ function ∈ s.callee?, Keyword.ofText? function = none) (k : LineKind) (n : Nat) (base : List Stmt) :
    tokensFrom ⟨.lineStart k, .leading⟩ (lowered n p) code
        = ⟨(tokensFrom state p code).lexemes.map (Lexeme.lowered n), none⟩ ∧
      (⟨.lineStart, base, []⟩ : ParseState).run
          ((tokensFrom state p code).lexemes.map (Lexeme.lowered n))
        = .ok ⟨.lineStart, statements.map (Stmt.relined (· + n)) ++ base, []⟩ := by
  obtain ⟨hlexemes, hlowered⟩ := tokensFrom_lowered n state p code
  have hfirst : ∀ first ident, (tokensFrom state p code).lexemes.head? = some first →
      first.token = .name ident → Keyword.ofText? ident = none := by
    intro first ident hhead hname
    obtain ⟨rest, hrest⟩ := List.head?_eq_some_iff.mp hhead
    rw [hrest] at hrun
    obtain ⟨line, args, hcall⟩ := ParseState.call_mem_of_name hname hrun
    exact hnames _ hcall ident rfl
  have hsame : ∀ k, tokensFrom ⟨.lineStart k, .leading⟩ (lowered n p) code
      = ⟨(tokensFrom state p code).lexemes.map (Lexeme.lowered n), none⟩ := by
    intro k
    have hhead : ∀ first ident, (tokensFrom state (lowered n p) code).lexemes.head? = some first →
        first.token = .name ident → Keyword.ofText? ident = none := by
      intro first ident hhead hname
      rw [hlexemes, List.head?_map] at hhead
      obtain ⟨lexeme, hlexeme, rfl⟩ := Option.map_eq_some_iff.mp hhead
      exact hfirst lexeme ident hlexeme hname
    rw [tokensFrom_lineStart hstate hmargin (hlowered.mpr hfault) hhead k, ← hlexemes,
      ← hlowered.mpr hfault]
  refine ⟨hsame k, ?_⟩
  -- the parser is at the start of a script, on other lines and then with other statements before
  have hscans := scans_of_tokensFrom (congrArg TokenStream.fault (hsame .leading))
  rw [hsame .leading] at hscans
  have hlines : List.Forall₂ (fun lexeme lexeme' => lexeme'.token = lexeme.token ∧
      lexeme'.position.line = lexeme.position.line + n) (tokensFrom state p code).lexemes
      ((tokensFrom state p code).lexemes.map (Lexeme.lowered n)) := by
    rw [List.forall₂_map_right_iff]
    exact List.forall₂_same.mpr fun lexeme _ => ⟨rfl, rfl⟩
  have hbelow := ParseState.run_relined (· + n) hlines hrun
  exact ParseState.run_onto base hscans rfl hbelow

/-- A script that ends with a line feed, or is empty, followed by another one is a script with the
statements of both, the lines of the second counted from the end of the first. -/
theorem parse_append {a b : String} {p q : Program} (ha : parse a = .ok p) (hb : parse b = .ok q)
    (hends : EndsLine a.toList)
    (hnames : ∀ s ∈ q.allStatements, ∀ function ∈ s.callee?, Keyword.ofText? function = none) :
    parse (a ++ b) = .ok
      ⟨p.statements ++ Stmt.relinedAll (· + a.toList.count '\n') q.statements, a ++ b⟩ := by
  by_cases hempty : a.toList = []
  · obtain rfl : a = "" := String.toList_eq_nil_iff.mp hempty
    have hp : parse "" = .ok ⟨[], ""⟩ :=
      @parse_of_tokens "" [] .initial (tokensFrom_nil .initial ⟨1, 1⟩) rfl rfl (List.forall_mem_nil _)
    obtain ⟨-, hsource⟩ := parse_eq_ok_iff.mp hb
    cases hp.symm.trans ha
    rw [String.empty_append, Stmt.relinedAll_self (by simp), List.nil_append, hb, ← hsource]
  · obtain ⟨first, last, text, k, hlexemes, htokens⟩ :=
      tokensFrom_seam b.toList hends hempty (fault_of_parse ha)
    obtain ⟨state, _, _, hstate, hmargin, rfl, rfl, hfault, hsmall, hrun⟩ := exists_run_margin hb
    have hcalls : ∀ s ∈ q.statements.reverse, ∀ function ∈ s.callee?, Keyword.ofText? function = none :=
      fun s hs => hnames s (mem_walkAll_self (List.mem_reverse.mp hs))
    obtain ⟨hsecond, hlater⟩ := run_below hstate hmargin hfault hrun hcalls k (a.toList.count '\n')
      p.statements.reverse
    have hfirst := run_of_parse ha
    have hfirstSmall := @oversized?_of_parse a.toList p (by rw [String.ofList_toList, ha])
    rw [tokens, hlexemes] at hfirst hfirstSmall
    -- the first script ends at the start of a line, from which the second is as from its own start
    have hplace : placeAfter ⟨1, 1⟩ (a.toList ++ b.toList.take (marginLength false b.toList))
        = lowered (a.toList.count '\n')
          (placeAfter ⟨1, 1⟩ (b.toList.take (marginLength false b.toList))) := by
      rw [placeAfter_append, hends.placeAfter hempty, ← placeAfter_lowered]
      rfl
    rw [hplace, hsecond, ← String.toList_append] at htokens
    have hall := (ParseState.run_append (run_retext hfirst text) _).trans hlater
    have hallSmall : ∀ lexeme ∈ first ++ [{ last with text := text }]
        ++ (tokensFrom state (placeAfter ⟨1, 1⟩ (b.toList.take (marginLength false b.toList)))
          (b.toList.drop (marginLength false b.toList))).lexemes.map
            (Lexeme.lowered (a.toList.count '\n')), oversized? lexeme = none := by
      intro lexeme hlexeme
      simp only [List.mem_append, List.mem_singleton, List.mem_map] at hlexeme
      rcases hlexeme with (hlexeme | rfl) | ⟨lexeme, hlexeme, rfl⟩
      · exact hfirstSmall lexeme (List.mem_append_left _ hlexeme)
      · exact hfirstSmall last (List.mem_append_right _ (List.mem_singleton_self last))
      · exact hsmall lexeme hlexeme
    rw [parse_of_tokens htokens hall rfl hallSmall, relinedAll_eq_map]
    simp

/-- A comment and a block after a statement. -/
theorem parse_append_block : ∃ p q : Program,
    parse "SET $x = 1 # one\n" = .ok p ∧ parse "# two\n\nIF $a\n f($x)\nENDIF\n" = .ok q ∧
    EndsLine "SET $x = 1 # one\n".toList ∧
    (∀ s ∈ q.allStatements, ∀ function ∈ s.callee?, Keyword.ofText? function = none) ∧
    p.allStatements.map Stmt.line = [1] ∧ q.allStatements.map Stmt.line = [3, 4] ∧
    parse ("SET $x = 1 # one\n" ++ "# two\n\nIF $a\n f($x)\nENDIF\n")
      = .ok ⟨p.statements ++ Stmt.relinedAll (· + "SET $x = 1 # one\n".toList.count '\n') q.statements,
        "SET $x = 1 # one\n" ++ "# two\n\nIF $a\n f($x)\nENDIF\n"⟩ := by
  have hfirst : (parse "SET $x = 1 # one\n").toOption.map (fun p => p.allStatements.map Stmt.line)
      = some [1] := by
    decide +kernel
  have hsecond : (parse "# two\n\nIF $a\n f($x)\nENDIF\n").toOption.map
      (fun q => (q.allStatements.map Stmt.line, q.allStatements.filterMap Stmt.callee?))
      = some ([3, 4], ["f"]) := by
    decide +kernel
  cases hp : parse "SET $x = 1 # one\n" with
  | error fault =>
      rw [hp] at hfirst
      cases hfirst
  | ok p =>
      cases hq : parse "# two\n\nIF $a\n f($x)\nENDIF\n" with
      | error fault =>
          rw [hq] at hsecond
          cases hsecond
      | ok q =>
          rw [hp] at hfirst
          rw [hq] at hsecond
          obtain ⟨hlines, hcallees⟩ := Prod.mk.inj (Option.some.inj hsecond)
          have hends : EndsLine "SET $x = 1 # one\n".toList := by simp [EndsLine]
          have hnames : ∀ s ∈ q.allStatements, ∀ function ∈ s.callee?,
              Keyword.ofText? function = none := by
            intro s hs function hfunction
            have hmem : function ∈ q.allStatements.filterMap Stmt.callee? :=
              List.mem_filterMap.mpr ⟨s, hs, hfunction⟩
            rw [hcallees, List.mem_singleton] at hmem
            rw [hmem]
            decide
          exact ⟨p, q, rfl, rfl, hends, hnames, Option.some.inj hfirst, hlines,
            parse_append hp hq hends hnames⟩

end Rubric.Script
