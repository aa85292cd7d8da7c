import Mathlib.Data.List.Chain
import Rubric.Proofs.Script.Openers
import Rubric.Proofs.Script.Reading

/-!
# Scripts that can be completed

Whatever a parser has read, there are tokens that complete the script: an operand where one is missing,
the brackets that are open, the end of the line, and the ends of the blocks that are open.

* `ParseState.Sound` : what holds in every state of a run;
* `Completes` : tokens that complete a script, and can be written with single spaces between them;
* `exists_completes` : every sound state can be completed.
-/

namespace Rubric.Script

open Rubric.Number Rubric.Text

/-! ## Open parts -/

/-- Whether an expression for a line that is a call stands in the arguments of this call. -/
def Goal.Anchored (goal : Goal) (frames : List Frame) : Prop :=
  ∀ line, goal = .call line → ∃ function args, frames.getLast? = some (.call function args)

/-- Whether a part is an operator with its operands. -/
def Frame.isOperator : Frame → Bool
  | .left _ _ => true
  | .unary _ => true
  | _ => false

/-- Only operators are closed, from the innermost on. -/
theorem exists_of_reduce (level : Nat) (frames : List Frame) (e : Expr) :
    ∃ closed, frames = closed ++ (reduce level frames e).1 ∧ ∀ f ∈ closed, f.isOperator = true := by
  have hnone : ∃ closed, frames = closed ++ frames ∧ ∀ f ∈ closed, f.isOperator = true :=
    ⟨[], rfl, by simp⟩
  induction frames generalizing e with
  | nil => exact hnone
  | cons frame frames ih =>
      have hmore : ∀ e, frame.isOperator = true → ∃ closed,
          frame :: frames = closed ++ (reduce level frames e).1 ∧ ∀ f ∈ closed, f.isOperator = true := by
        intro e hframe
        obtain ⟨closed, hclosed, hall⟩ := ih e ⟨[], rfl, by simp⟩
        exact ⟨frame :: closed, by rw [List.cons_append, ← hclosed],
          List.forall_mem_cons.mpr ⟨hframe, hall⟩⟩
      cases frame with
      | left op operand | unary op =>
          rw [reduce]
          split
          · exact hmore _ rfl
          · exact hnone
      | _ => exact hnone

/-- The outermost part, where it is no operator, is not closed. -/
theorem getLast?_reduce {frames : List Frame} {frame : Frame} (h : frames.getLast? = some frame)
    (hframe : frame.isOperator = false) (level : Nat) (e : Expr) :
    (reduce level frames e).1.getLast? = some frame := by
  obtain ⟨closed, hframes, hall⟩ := exists_of_reduce level frames e
  cases hrest : (reduce level frames e).1 with
  | nil =>
      rw [hrest, List.append_nil] at hframes
      have hoperator := hall frame (hframes ▸ List.mem_of_getLast? h)
      rw [hframe] at hoperator
      cases hoperator
  | cons next rest =>
      rw [hframes, hrest, List.getLast?_append] at h
      simpa using h

/-- Nor is it closed by a binary operator. -/
theorem getLast?_pushBinary {frames frames' : List Frame} {frame : Frame} {op : BinaryOp} {value : Expr}
    (h : frames.getLast? = some frame) (hframe : frame.isOperator = false)
    (hpush : pushBinary op frames value = some frames') : frames'.getLast? = some frame := by
  have hcons : ∀ {rest : List Frame} (first : Frame), rest.getLast? = some frame →
      (first :: rest).getLast? = some frame := by
    intro rest first hrest
    rw [List.getLast?_cons, hrest]
    rfl
  unfold pushBinary at hpush
  split at hpush
  · have hclosed := getLast?_reduce h hframe (op.level + 1) value
    split at hpush
    · rename_i heq
      rw [heq] at hclosed
      split at hpush
      · cases hpush
      · cases hpush
        exact hcons _ hclosed
    · rename_i heq
      rw [heq] at hclosed
      cases hpush
      exact hcons _ hclosed
  · cases hpush
    exact hcons _ (getLast?_reduce h hframe op.level value)

/-- Inside the innermost bracket everything is closed. -/
theorem not_isOperator_of_reduceAll {frames rest : List Frame} {e value : Expr} {frame : Frame}
    (h : reduceAll frames e = (frame :: rest, value)) : frame.isOperator = false := by
  unfold reduceAll at h
  induction frames generalizing e with
  | nil => cases h
  | cons first frames ih =>
      cases first with
      | left op operand | unary op =>
          rw [reduce, if_pos (Nat.zero_le _)] at h
          exact ih h
      | _ =>
          cases h
          rfl

/-- The arguments of the line are still open after something is closed in them. -/
theorem Goal.Anchored.reduce {goal : Goal} {frames : List Frame} (h : goal.Anchored frames)
    (level : Nat) (e : Expr) : goal.Anchored (reduce level frames e).1 := by
  intro line hgoal
  obtain ⟨function, args, hlast⟩ := h line hgoal
  exact ⟨function, args, getLast?_reduce hlast rfl level e⟩

/-- They are open around a new part. -/
theorem Goal.Anchored.cons {goal : Goal} {frames : List Frame} (h : goal.Anchored frames)
    (frame : Frame) : goal.Anchored (frame :: frames) := by
  intro line hgoal
  obtain ⟨function, args, hlast⟩ := h line hgoal
  refine ⟨function, args, ?_⟩
  rw [List.getLast?_cons, hlast]
  rfl

/-- They are open around a part that is closed, unless it is they. -/
theorem Goal.Anchored.of_cons {goal : Goal} {frame : Frame} {frames : List Frame}
    (h : goal.Anchored (frame :: frames))
    (hframe : ∀ line function args, goal = .call line → frames = [] → frame ≠ .call function args) :
    goal.Anchored frames := by
  intro line hgoal
  obtain ⟨function, args, hlast⟩ := h line hgoal
  refine ⟨function, args, ?_⟩
  cases frames with
  | nil => exact absurd (by simpa using hlast) (hframe line function args hgoal rfl)
  | cons next frames => simpa [List.getLast?_cons_cons] using hlast

/-- What a part holds besides its kind does not matter. -/
theorem Goal.Anchored.exchange {goal : Goal} {frame frame' : Frame} {frames : List Frame}
    (h : goal.Anchored (frame :: frames))
    (hframe : (∃ function args, frame = .call function args) →
      ∃ function args, frame' = .call function args) : goal.Anchored (frame' :: frames) := by
  intro line hgoal
  obtain ⟨function, args, hlast⟩ := h line hgoal
  cases frames with
  | nil =>
      obtain ⟨function', args', rfl⟩ := hframe ⟨function, args, by simpa using hlast⟩
      exact ⟨function', args', rfl⟩
  | cons next frames => exact ⟨function, args, by simpa [List.getLast?_cons_cons] using hlast⟩

/-- Other lines may hold any expression. -/
theorem Goal.anchored_of_ne {goal : Goal} (h : ∀ line, goal ≠ .call line) (frames : List Frame) :
    goal.Anchored frames := fun line hgoal => absurd hgoal (h line)

namespace ParseState

/-! ## Sound states -/

/-- Whether an expression fits its line and the blocks around it. -/
def Holding (s : ParseState) (goal : Goal) (frames : List Frame) : Prop :=
  goal.Anchored frames ∧ (goal = .elif → s.inBranch = true)

/-- Whether what the current line is read as fits the blocks around it. -/
def Sound (s : ParseState) : Prop :=
  match s.focus with
  | .operand goal frames => s.Holding goal frames
  | .operator goal frames _ _ => s.Holding goal frames
  | .member goal frames _ => s.Holding goal frames
  | .lineEnd .otherwise => s.inBranch = true
  | .lineEnd .endBranch => s.inConditional = true
  | .lineEnd .endForeach => s.inForeach = true
  | _ => True

/-- At the start of a script all is well. -/
theorem sound_initial : initial.Sound := trivial

variable {s s' : ParseState} {goal : Goal} {frames : List Frame}

/-- A complete call fits. -/
theorem sound_afterCall {function : String} {args : List Expr} {statements : List Stmt}
    {blocks : List (Block × List Stmt)} (args' : List Expr) (h : goal.Anchored (.call function args :: frames))
    (hblock : goal = .elif → inBranch ⟨.afterCall goal frames function args', statements, blocks⟩ = true) :
    Sound ⟨.afterCall goal frames function args', statements, blocks⟩ := by
  cases goal with
  | call line =>
      cases frames with
      | nil => trivial
      | cons frame frames => exact ⟨h.of_cons (by simp), by simp⟩
  | _ => exact ⟨Goal.anchored_of_ne (by simp) _, hblock⟩

/-- A binary operator stands where its left operand did. -/
theorem anchored_of_pushBinary {op : BinaryOp} {frames' : List Frame} {value : Expr}
    (h : goal.Anchored frames) (hpush : pushBinary op frames value = some frames') :
    goal.Anchored frames' := by
  intro line hgoal
  obtain ⟨function, args, hlast⟩ := h line hgoal
  exact ⟨function, args, getLast?_pushBinary hlast rfl hpush⟩

/-- A token within a line leaves what fits. -/
theorem sound_advances {f f' : Focus} {token : Token} (hadvances : f.Advances token f')
    {statements : List Stmt} {blocks : List (Block × List Stmt)} (h : Sound ⟨f, statements, blocks⟩) :
    Sound ⟨f', statements, blocks⟩ := by
  have hclosed {goal : Goal} {frames rest : List Frame} {value inner : Expr}
      (hgoal : goal.Anchored frames) (hreduce : reduceAll frames value = (rest, inner)) :
      goal.Anchored rest := by
    have hall := hgoal.reduce 0 value
    rwa [← reduceAll, hreduce] at hall
  cases hadvances with
  | assignedVar | dotTarget | targetField | loopVar => trivial
  | assign | loopIn => exact ⟨Goal.anchored_of_ne (by simp) _, by simp⟩
  | callOpen start function => exact ⟨fun _ _ => ⟨function, [], rfl⟩, by simp⟩
  | number | str | bool | null | var | name | dot | member => exact h
  | not | neg | paren | list | index | call => exact ⟨h.1.cons _, h.2⟩
  | binarySign _ hpush | binaryWord _ hpush => exact ⟨anchored_of_pushBinary h.1 hpush, h.2⟩
  | nextItem hreduce => exact ⟨(hclosed h.1 hreduce).exchange (by simp), h.2⟩
  | nextArgument hreduce => exact ⟨(hclosed h.1 hreduce).exchange fun _ => ⟨_, _, rfl⟩, h.2⟩
  | noItem => exact ⟨h.1.of_cons (by simp), h.2⟩
  | closeParen hreduce | closeList hreduce | closeIndex hreduce =>
      exact ⟨(hclosed h.1 hreduce).of_cons (by simp), h.2⟩
  | noArgument => exact sound_afterCall [] h.1 h.2
  | closeCall hreduce => exact sound_afterCall _ (hclosed h.1 hreduce) h.2

/-- Every token leaves what fits. -/
theorem Sound.step {line : Nat} {token : Token} (h : s.Sound)
    (hs : s.step line token = some s') : s'.Sound := by
  cases transition_of_step hs with
  | advance hadvances => exact sound_advances hadvances h
  | begin hbegins =>
      cases hbegins with
      | branch => exact ⟨Goal.anchored_of_ne (by simp) _, by simp⟩
      | _ => trivial
  | «continue» hcontinues =>
      cases hcontinues with
      | elif => exact ⟨Goal.anchored_of_ne (by simp) _, fun _ => rfl⟩
      | _ => rfl
  | _ => trivial

/-- Every run leaves what fits. -/
theorem Sound.run {lexemes : List Lexeme} (h : s.Sound) (hrun : s.run lexemes = .ok s') :
    s'.Sound := by
  induction lexemes generalizing s with
  | nil =>
      cases hrun
      exact h
  | cons lexeme lexemes ih =>
      rw [ParseState.run] at hrun
      split at hrun
      · rename_i next hstep
        exact ih (h.step hstep) hrun
      · cases hrun

/-! ## Completing -/

/-- Whether tokens complete a script from a state on: each can be written, none of them a number, no
line is empty, and they lead to where a script may end. -/
structure Completes (s : ParseState) (ts : List Token) : Prop where
  spelled : ∀ t ∈ ts, t.WellSpelled fun _ => false
  apart : ts.IsChain fun t next => t = .newline → next ≠ .newline
  leads : s.Leads ts fun s' => s'.isComplete = true

/-- A token within a line, before tokens that complete the script after it. -/
theorem Completes.cons {ts : List Token} {token : Token} (h : s'.Completes ts)
    (htoken : token ≠ .newline) (hspelled : token.WellSpelled fun _ => false)
    (htells : s.place.phase.Tells token) (hstep : ∀ line, s.step line token = some s') :
    s.Completes (token :: ts) where
  spelled := List.forall_mem_cons.mpr ⟨hspelled, h.spelled⟩
  apart := h.apart.cons fun _ _ hnewline => absurd hnewline htoken
  leads := leads_cons htells hstep h.leads

/-- A line end, before tokens that complete the script after it and do not start with another. -/
theorem Completes.newline {ts : List Token} (h : s'.Completes ts)
    (hts : ∀ next ∈ ts.head?, next ≠ .newline) (htells : s.place.phase.Tells .newline)
    (hstep : ∀ line, s.step line .newline = some s') : s.Completes (.newline :: ts) where
  spelled := List.forall_mem_cons.mpr ⟨trivial, h.spelled⟩
  apart := h.apart.cons fun next hnext _ => hts next hnext
  leads := leads_cons htells hstep h.leads

/-- Between statements the blocks are closed, one after the other. -/
theorem exists_completes_lineStart (blocks : List (Block × List Stmt)) (statements : List Stmt) :
    ∃ ts, (⟨.lineStart, statements, blocks⟩ : ParseState).Completes ts ∧
      ∀ next ∈ ts.head?, next ≠ .newline := by
  induction blocks generalizing statements with
  | nil => exact ⟨[], ⟨by simp, .nil, rfl⟩, by simp⟩
  | cons entry blocks ih =>
      obtain ⟨block, outer⟩ := entry
      -- the word that closes the block, and the line end after it
      have hclose : ∀ (k : Keyword) (completed : LineEnd) (statement : Stmt),
          block.lineKind.allows k = true → completed.phase = .lineEnd →
          (∀ line, (⟨.lineStart, statements, (block, outer) :: blocks⟩ : ParseState).step line
            (.keyword k) = some ⟨.lineEnd completed, statements, (block, outer) :: blocks⟩) →
          (∀ line, (⟨.lineEnd completed, statements, (block, outer) :: blocks⟩ : ParseState).step line
            .newline = some ⟨.lineStart, statement :: outer, blocks⟩) →
          ∃ ts, (⟨.lineStart, statements, (block, outer) :: blocks⟩ : ParseState).Completes ts ∧
            ∀ next ∈ ts.head?, next ≠ .newline := by
        intro k completed statement hallows hphase hword hend
        obtain ⟨ts, hts, hhead⟩ := ih (statement :: outer)
        have hline := hts.newline hhead (tells_of_accepts (by
          show completed.phase.accepts _ = true
          rw [hphase]
          rfl) (by simp)) hend
        exact ⟨.keyword k :: .newline :: ts, hline.cons (by simp) trivial
          (tells_inBlock hallows statements outer blocks) hword, by simp⟩
      cases block with
      | branch line earlier condition =>
          exact hclose .endBranch .endBranch _ rfl rfl (fun _ => rfl) fun _ => rfl
      | otherwise line earlier previous =>
          exact hclose .endBranch .endBranch _ rfl rfl (fun _ => rfl) fun _ => rfl
      | foreach line var collection =>
          exact hclose .endForeach .endForeach _ rfl rfl (fun _ => rfl) fun _ => rfl

/-- At the end of a line the line is ended, and the blocks are closed. -/
theorem exists_completes_newline (htells : s.place.phase.Tells .newline) (hfocus : s'.focus = .lineStart)
    (hstep : ∀ line, s.step line .newline = some s') : ∃ ts, s.Completes ts := by
  obtain ⟨f, statements, blocks⟩ := s'
  obtain rfl : f = .lineStart := hfocus
  obtain ⟨ts, hts, hhead⟩ := exists_completes_lineStart blocks statements
  exact ⟨.newline :: ts, hts.newline hhead htells hstep⟩

/-- The end of a line with a complete expression, where that is no call. -/
theorem exists_endExpression (value : Expr) (hcall : ∀ line, goal ≠ .call line)
    (helif : goal = .elif → s.inBranch = true) :
    ∃ s', s.endExpression goal value = some s' ∧ s'.focus = .lineStart := by
  cases goal with
  | call line => exact absurd rfl (hcall line)
  | elif =>
      obtain ⟨f, statements, blocks⟩ := s
      have hblock := helif rfl
      unfold inBranch at hblock
      split at hblock
      · rename_i hblocks
        obtain rfl : blocks = _ := hblocks
        exact ⟨_, rfl, rfl⟩
      · cases hblock
  | _ => exact ⟨_, rfl, rfl⟩

/-- The end of a line without an open expression. -/
theorem exists_endLine {completed : LineEnd} {statements : List Stmt}
    {blocks : List (Block × List Stmt)}
    (h : (⟨.lineEnd completed, statements, blocks⟩ : ParseState).Sound) :
    ∃ s', (⟨.lineEnd completed, statements, blocks⟩ : ParseState).endLine completed = some s' ∧
      s'.focus = .lineStart := by
  cases completed with
  | call line function args => exact ⟨_, rfl, rfl⟩
  | otherwise =>
      have hblock : inBranch ⟨.lineEnd .otherwise, statements, blocks⟩ = true := h
      rcases blocks with _ | ⟨⟨block, outer⟩, blocks⟩
      · cases hblock
      · cases block <;> first | exact ⟨_, rfl, rfl⟩ | cases hblock
  | endBranch =>
      have hblock : inConditional ⟨.lineEnd .endBranch, statements, blocks⟩ = true := h
      rcases blocks with _ | ⟨⟨block, outer⟩, blocks⟩
      · cases hblock
      · cases block <;> first | exact ⟨_, rfl, rfl⟩ | cases hblock
  | endForeach =>
      have hblock : inForeach ⟨.lineEnd .endForeach, statements, blocks⟩ = true := h
      rcases blocks with _ | ⟨⟨block, outer⟩, blocks⟩
      · cases hblock
      · cases block <;> first | exact ⟨_, rfl, rfl⟩ | cases hblock

/-- A line of which nothing but its end is missing. -/
theorem exists_completes_lineEnd {completed : LineEnd} {statements : List Stmt}
    {blocks : List (Block × List Stmt)}
    (h : (⟨.lineEnd completed, statements, blocks⟩ : ParseState).Sound) :
    ∃ ts, (⟨.lineEnd completed, statements, blocks⟩ : ParseState).Completes ts := by
  obtain ⟨s', hend, hfocus⟩ := exists_endLine h
  refine exists_completes_newline (tells_of_accepts ?_ (by simp)) hfocus fun _ => hend
  show completed.phase.accepts .newline = true
  cases completed <;> rfl

/-- The innermost bracket is closed: the operand goes on around it, or it was the line. -/
theorem exists_closeBracket (goal : Goal) (statements : List Stmt) (blocks : List (Block × List Stmt))
    {frames rest : List Frame} {frame : Frame} {value value' : Expr} (function : Option String)
    (h : reduceAll frames value = (frame :: rest, value')) :
    ∃ sign s', (sign = .closeParen ∨ sign = .closeBracket) ∧
      (∀ line, (⟨.operator goal frames value function, statements, blocks⟩ : ParseState).step line
        (.sign sign) = some s') ∧
      ((∃ inner, s' = ⟨.operator goal rest inner none, statements, blocks⟩) ∨
        ∃ completed, s' = ⟨.lineEnd completed, statements, blocks⟩) := by
  have hparen : ∀ line, (⟨.operator goal frames value function, statements, blocks⟩ :
      ParseState).step line (.sign .closeParen) = closeParen _ goal frames value := fun _ => rfl
  have hbracket : ∀ line, (⟨.operator goal frames value function, statements, blocks⟩ :
      ParseState).step line (.sign .closeBracket) = closeBracket _ goal frames value := fun _ => rfl
  simp only [closeParen, closeBracket, h] at hparen hbracket
  cases frame with
  | left op operand => cases not_isOperator_of_reduceAll h
  | unary op => cases not_isOperator_of_reduceAll h
  | paren => exact ⟨.closeParen, _, .inl rfl, hparen, .inl ⟨_, rfl⟩⟩
  | list items => exact ⟨.closeBracket, _, .inr rfl, hbracket, .inl ⟨_, rfl⟩⟩
  | index target => exact ⟨.closeBracket, _, .inr rfl, hbracket, .inl ⟨_, rfl⟩⟩
  | call callee args =>
      refine ⟨.closeParen, _, .inl rfl, hparen, ?_⟩
      unfold callRead
      split
      · exact .inr ⟨_, rfl⟩
      · exact .inl ⟨_, rfl⟩

/-- After an operand the brackets are closed, from the innermost on, and the line is ended. -/
theorem exists_completes_operator {goal : Goal} {statements : List Stmt}
    {blocks : List (Block × List Stmt)} (frames : List Frame) (value : Expr)
    (function : Option String)
    (h : (⟨.operator goal frames value function, statements, blocks⟩ : ParseState).Sound) :
    ∃ ts, (⟨.operator goal frames value function, statements, blocks⟩ : ParseState).Completes ts := by
  induction hlength : frames.length using Nat.strong_induction_on generalizing frames value function with
  | _ n ih =>
      -- what is left open once the operators inside the innermost bracket are closed
      have hclosed := h.1.reduce 0 value
      obtain ⟨closed, hframes, -⟩ := exists_of_reduce 0 frames value
      have hle := congrArg List.length hframes
      rw [List.length_append, hlength] at hle
      rw [← reduceAll] at hclosed hle
      cases hreduced : reduceAll frames value with
      | mk open_ value' =>
          rw [hreduced] at hclosed hle
          cases open_ with
          | nil =>
              have hcall : ∀ line, goal ≠ .call line := by
                intro line hgoal
                obtain ⟨_, _, hlast⟩ := hclosed line hgoal
                cases hlast
              obtain ⟨s', hend, hfocus⟩ := exists_endExpression value' hcall h.2
              refine exists_completes_newline (tells_of_accepts rfl (by simp)) hfocus fun _ => ?_
              show endOfOperand _ goal frames value = some s'
              rw [endOfOperand, hreduced]
              exact hend
          | cons frame rest =>
              obtain ⟨sign, s', hsign, hstep, hs'⟩ := exists_closeBracket goal statements
                blocks function hreduced
              have hsound : s'.Sound := h.step (hstep 0)
              have hrest : ∃ ts, s'.Completes ts := by
                rw [List.length_cons] at hle
                rcases hs' with ⟨inner, rfl⟩ | ⟨completed, rfl⟩
                · exact ih rest.length (by omega) rest inner none hsound rfl
                · exact exists_completes_lineEnd hsound
              obtain ⟨ts, hts⟩ := hrest
              refine ⟨.sign sign :: ts,
                hts.cons (by simp) trivial (tells_of_accepts ?_ (by simp)) hstep⟩
              rcases hsign with rfl | rfl <;> rfl

/-- Where an operand is missing, it is given. -/
theorem exists_completes_operand {goal : Goal} {frames : List Frame} {statements : List Stmt}
    {blocks : List (Block × List Stmt)}
    (h : (⟨.operand goal frames, statements, blocks⟩ : ParseState).Sound) :
    ∃ ts, (⟨.operand goal frames, statements, blocks⟩ : ParseState).Completes ts := by
  have hstep : ∀ line, (⟨.operand goal frames, statements, blocks⟩ : ParseState).step line
      (.keyword .null) = some ⟨.operator goal frames .null none, statements, blocks⟩ := fun _ => rfl
  obtain ⟨ts, hts⟩ := exists_completes_operator frames .null none (h.step (hstep 0))
  exact ⟨.keyword .null :: ts, hts.cons (by simp) trivial
    (tells_operandPhase frames fun _ _ => tells_of_accepts rfl (by simp)) hstep⟩

/-- One more token within a line leads to a state that can be completed. -/
theorem exists_completes_within (token : Token) {s s' : ParseState} (h : ∃ ts, s'.Completes ts)
    (htoken : token ≠ .newline) (hspelled : token.WellSpelled fun _ => false)
    (htells : s.place.phase.Tells token) (hstep : ∀ line, s.step line token = some s') :
    ∃ ts, s.Completes ts := by
  obtain ⟨ts, hts⟩ := h
  exact ⟨token :: ts, hts.cons htoken hspelled htells hstep⟩

/-- After the target of an assignment its value is given. -/
theorem exists_completes_afterTarget (start : Nat) (var : String) (path : List String)
    (statements : List Stmt) (blocks : List (Block × List Stmt)) :
    ∃ ts, (⟨.afterTarget start var path, statements, blocks⟩ : ParseState).Completes ts := by
  have hsound : (⟨.operand (.assign start var path) [], statements, blocks⟩ : ParseState).Sound :=
    ⟨Goal.anchored_of_ne (by simp) _, by simp⟩
  exact exists_completes_within (.sign .assign) (exists_completes_operand hsound)
    (by simp) trivial (tells_of_accepts rfl (by simp)) fun _ => rfl

/-- After the variable of a loop its collection is given. -/
theorem exists_completes_loopIn (start : Nat) (var : String) (statements : List Stmt)
    (blocks : List (Block × List Stmt)) :
    ∃ ts, (⟨.loopIn start var, statements, blocks⟩ : ParseState).Completes ts := by
  have hsound : (⟨.operand (.foreach start var) [], statements, blocks⟩ : ParseState).Sound :=
    ⟨Goal.anchored_of_ne (by simp) _, by simp⟩
  exact exists_completes_within (.keyword .mem) (exists_completes_operand hsound)
    (by simp) trivial (tells_of_accepts rfl (by simp)) fun _ => rfl

/-- Every sound state can be completed, between statements not with a line end at once. -/
theorem exists_completes {s : ParseState} (h : s.Sound) :
    ∃ ts, s.Completes ts ∧ (s.focus = .lineStart → ∀ next ∈ ts.head?, next ≠ .newline) := by
  obtain ⟨f, statements, blocks⟩ := s
  -- where a name is missing, any will do
  have hspelled : isIdentifier "x" = true := by decide
  -- within a line nothing is asked of the first token
  have hinline : f ≠ .lineStart → (∃ ts, (⟨f, statements, blocks⟩ : ParseState).Completes ts) →
      ∃ ts, (⟨f, statements, blocks⟩ : ParseState).Completes ts ∧
        (f = .lineStart → ∀ next ∈ ts.head?, next ≠ .newline) :=
    fun hf ⟨ts, hts⟩ => ⟨ts, hts, fun hline => absurd hline hf⟩
  cases f with
  | lineStart =>
      obtain ⟨ts, hts, hhead⟩ := exists_completes_lineStart blocks statements
      exact ⟨ts, hts, fun _ => hhead⟩
  | assignedVar start =>
      exact hinline (by simp) (exists_completes_within (.var "x")
        (exists_completes_afterTarget start "x" [] statements blocks) (by simp) hspelled
        (tells_of_accepts rfl (by simp)) fun _ => rfl)
  | afterTarget start var path =>
      exact hinline (by simp) (exists_completes_afterTarget start var path statements blocks)
  | targetField start var path =>
      exact hinline (by simp) (exists_completes_within (.name "x")
        (exists_completes_afterTarget start var (path ++ ["x"]) statements blocks) (by simp) hspelled
        (tells_bareName rfl (by decide)) fun _ => rfl)
  | loopVar start =>
      exact hinline (by simp) (exists_completes_within (.var "x")
        (exists_completes_loopIn start "x" statements blocks) (by simp) hspelled
        (tells_of_accepts rfl (by simp)) fun _ => rfl)
  | loopIn start var =>
      exact hinline (by simp) (exists_completes_loopIn start var statements blocks)
  | callOpen start function =>
      have hsound : (⟨.operand (.call start) [.call function []], statements, blocks⟩ :
          ParseState).Sound := ⟨fun _ _ => ⟨function, [], rfl⟩, by simp⟩
      exact hinline (by simp) (exists_completes_within (.sign .openParen)
        (exists_completes_operand hsound) (by simp) trivial (tells_of_accepts rfl (by simp))
        fun _ => rfl)
  | operand goal frames => exact hinline (by simp) (exists_completes_operand h)
  | operator goal frames value function =>
      exact hinline (by simp) (exists_completes_operator frames value function h)
  | member goal frames target =>
      have hsound : (⟨.operator goal frames (.member target "x") none, statements, blocks⟩ :
          ParseState).Sound := h
      exact hinline (by simp) (exists_completes_within (.name "x")
        (exists_completes_operator frames _ none hsound) (by simp) hspelled
        (tells_bareName rfl (by decide)) fun _ => rfl)
  | lineEnd completed => exact hinline (by simp) (exists_completes_lineEnd h)

end ParseState

/-! ## Writing the tokens -/

/-- Tokens with single spaces before them, another gap before the first. -/
def spaced (gap : Nat) : List Token → List Written
  | [] => []
  | t :: ts => ⟨gap, t⟩ :: spaced 1 ts

/-- The tokens are what they were. -/
theorem map_token_spaced (gap : Nat) (ts : List Token) : (spaced gap ts).map Written.token = ts := by
  induction ts generalizing gap with
  | nil => rfl
  | cons t ts ih => rw [spaced, List.map_cons, ih]

/-- Every token ends before a space. -/
theorem endsBefore_spaced (t : Token) (ts : List Token) : t.EndsBefore (render (spaced 1 ts)) := by
  have hrest : render (spaced 1 ts) = [] ∨ ∃ more, render (spaced 1 ts) = ' ' :: more := by
    cases ts with
    | nil => exact .inl rfl
    | cons next ts => exact .inr ⟨_, rfl⟩
  have hdelimits : Delimits (render (spaced 1 ts)) := by
    rcases hrest with hnil | ⟨more, hcons⟩
    · rw [hnil]
      exact ⟨by simp, by simp⟩
    · rw [hcons]
      refine ⟨?_, by simp⟩
      simp only [List.head?_cons, Option.mem_some_iff, forall_eq']
      decide
  cases t with
  | sign sign =>
      intro _
      rcases hrest with hnil | ⟨more, hcons⟩
      · simp [hnil]
      · simp [hcons]
  | newline => trivial
  | str value => trivial
  | _ => exact hdelimits

/-- The tokens that complete a script can be written so. -/
theorem legible_spaced {numbers : Int → Bool} (gap : Nat) {ts : List Token}
    (hspelled : ∀ t ∈ ts, t.WellSpelled numbers)
    (hapart : ts.IsChain fun t next => t = .newline → next ≠ .newline) :
    Legible numbers (spaced gap ts) := by
  induction ts generalizing gap with
  | nil => trivial
  | cons t ts ih =>
      rw [List.forall_mem_cons] at hspelled
      refine ⟨⟨hspelled.1, endsBefore_spaced t ts, fun hnewline next hnext => ?_⟩,
        ih 1 hspelled.2 hapart.tail⟩
      cases ts with
      | nil => cases hnext
      | cons t' ts =>
          obtain rfl := Option.some.inj hnext
          exact (List.isChain_cons_cons.mp hapart).1 hnewline

end Rubric.Script
