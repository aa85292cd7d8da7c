import Rubric.Proofs.Script.Printer

/-!
# Reading printed tokens

The parsing machine takes the tokens of a printed script one after the other and rebuilds what they
were printed from.

* `Expr.isRead` : the tokens of an expression lead to the machine holding that expression, once the
  parts left open inside it are closed;
* `Stmt.isRead` : the tokens of a statement lead to the machine holding that statement, but for the
  line numbers.
-/

namespace Rubric.Script

open Rubric.Number Rubric.Text

/-! ## Numbers -/

/-- Written digits are read as their number. -/
theorem ofDigits_digitsOf (n : Nat) : NumberLiteral.ofDigits (digitsOf n) = .int n := by
  have hdot : (digitsOf n).contains '.' = false := by simp [dot_notMem_digitsOf]
  rw [NumberLiteral.ofDigits, hdot, ofDigitList_digitsOf]
  rfl

/-! ## Closing open parts -/

/-- Nothing binds as tightly as a complete operand. -/
theorem reduce_atomLevel (frames : List Frame) (e : Expr) :
    reduce atomLevel frames e = (frames, e) := by
  rcases frames with _ | ⟨frame, frames⟩
  · rfl
  · cases frame with
    | left op operand => cases op <;> rfl
    | unary op => cases op <;> rfl
    | _ => rfl

/-- What a binary operator does depends on what is open once its left operand is closed. -/
theorem pushBinary_congr {op : BinaryOp} {frames frames' : List Frame} {e e' : Expr}
    (h : reduce op.leftLevel frames e = reduce op.leftLevel frames' e') :
    pushBinary op frames e = pushBinary op frames' e' := by
  unfold BinaryOp.leftLevel at h
  unfold pushBinary
  by_cases hop : op.isComparison = true
  · rw [if_pos hop] at h
    rw [if_pos hop, if_pos hop, h]
  · rw [if_neg hop] at h
    rw [if_neg hop, if_neg hop, h]

/-- Whether operands that bind as tightly as a level may stand inside open parts: an operator of
theirs closes none of these. -/
structure Admits (level : Nat) (frames : List Frame) : Prop where
  push : ∀ (op : BinaryOp) (e : Expr), level ≤ op.level →
    pushBinary op frames e = some (.left op e :: frames)
  negated : level ≤ UnaryOp.not.level → ∃ close, operandPhase frames = .operand true close

/-- Operands that bind more tightly may stand wherever others may. -/
theorem Admits.mono {level level' : Nat} {frames : List Frame} (h : Admits level frames)
    (hle : level ≤ level') : Admits level' frames where
  push op e hop := h.push op e (Nat.le_trans hle hop)
  negated hnot := h.negated (Nat.le_trans hle hnot)

/-- No operator binds as tightly as a complete operand. -/
theorem admits_atomLevel (frames : List Frame) : Admits atomLevel frames where
  push op e hop := by cases op <;> exact absurd hop (by decide)
  negated hnot := absurd hnot (by decide)

/-- Every operand may stand outside all parts. -/
theorem admits_nil : Admits 0 [] where
  push op e _ := by cases op <;> rfl
  negated _ := ⟨none, rfl⟩

/-- Every operand may stand between parentheses. -/
theorem admits_paren (frames : List Frame) : Admits 0 (.paren :: frames) where
  push op e _ := by cases op <;> rfl
  negated _ := ⟨none, rfl⟩

/-- Every operand may stand between brackets. -/
theorem admits_index (target : Expr) (frames : List Frame) : Admits 0 (.index target :: frames) where
  push op e _ := by cases op <;> rfl
  negated _ := ⟨none, rfl⟩

/-- The right operand of an operator binds more tightly than the operator. -/
theorem admits_left (op : BinaryOp) (e : Expr) (frames : List Frame) :
    Admits (op.level + 1) (.left op e :: frames) where
  push op' e' hop := by
    have hkeep : ∀ k, op.level < k →
        reduce k (.left op e :: frames) e' = (.left op e :: frames, e') := by
      intro k hk
      rw [reduce, if_neg (by omega)]
    unfold pushBinary
    by_cases hcomparison : op'.isComparison = true
    · have hother : op.isComparison = false := by
        simp only [BinaryOp.isComparison, beq_iff_eq] at hcomparison
        simp only [BinaryOp.isComparison, beq_eq_false_iff_ne]
        omega
      rw [if_pos hcomparison, hkeep _ (by omega)]
      simp [hother]
    · rw [if_neg hcomparison, hkeep _ (by omega)]
  negated hnot := by
    refine ⟨none, ?_⟩
    have hlevel : op.level < 4 := by
      simp only [UnaryOp.level] at hnot
      omega
    simp [operandPhase, Frame.phase, hlevel]

/-- The operand of a unary operator binds at least as tightly as the operator. -/
theorem admits_unary (op : UnaryOp) (frames : List Frame) :
    Admits op.level (.unary op :: frames) where
  push op' e' hop := by
    cases op <;> cases op' <;> first | rfl | exact absurd hop (by decide)
  negated hnot := by
    cases op
    case not => exact ⟨none, rfl⟩
    case neg => exact absurd hnot (by decide)

/-- The parts that collect expressions: lists and calls. -/
inductive Collects : (List Expr → Frame) → Prop where
  | list : Collects .list
  | call (function : String) : Collects (.call function)

/-- Every operand may stand in a list or a call. -/
theorem Collects.admits {part : List Expr → Frame} (h : Collects part) (items : List Expr)
    (frames : List Frame) : Admits 0 (part items :: frames) where
  push op e _ := by cases h <;> cases op <;> rfl
  negated _ := by cases h <;> cases items <;> exact ⟨_, rfl⟩

/-! ## Tokens at their places -/

/-- Tokens other than names are read as themselves where they can stand. -/
theorem tells_of_accepts {phase : Phase} {token : Token}
    (haccepts : phase.accepts token.kind = true) (hname : ∀ ident, token ≠ .name ident) :
    phase.Tells token :=
  ⟨haccepts, fun ident _ htoken _ => absurd htoken (hname ident)⟩

/-- Names that are not reserved are read as themselves where names can stand. -/
theorem tells_bareName {phase : Phase} {ident : String} (haccepts : phase.accepts .name = true)
    (hident : isBareName ident = true) : phase.Tells (.name ident) := by
  refine ⟨haccepts, fun ident' k htoken hk => ?_⟩
  rw [← Token.name.inj htoken] at hk
  simp [isBareName, hk] at hident

/-- An operand is read as itself inside all open parts. -/
theorem tells_operandPhase (frames : List Frame) {token : Token}
    (h : ∀ negated close, (Phase.operand negated close).Tells token) :
    (operandPhase frames).Tells token := by
  obtain ⟨negated, close, hphase⟩ := ParseState.operandPhase_eq frames
  rw [hphase]
  exact h negated close

/-- The function of a call is read as itself where names and variables can stand. -/
theorem tells_callee {phase : Phase} {function : String} (h : isCallee function = true)
    (hname : phase.accepts .name = true) (hvar : phase.accepts .var = true) :
    phase.Tells (calleeToken function) := by
  rcases calleeToken_cases h with ⟨ident, -, htoken, -⟩ | ⟨htoken, hbare⟩
  · rw [htoken]
    exact tells_of_accepts hvar (by simp)
  · rw [htoken]
    exact tells_bareName hname hbare

/-- Binary operators are read as themselves after an operand. -/
theorem tells_operator (op : BinaryOp) (called : Bool) :
    (Phase.operator called).Tells op.token := by
  cases op <;> exact tells_of_accepts (by simp [Phase.accepts, BinaryOp.token, Token.kind])
    (by simp [BinaryOp.token])

/-! ## Reading expressions -/

/-- Where an expression stands in a call that is a whole line, it is an argument. -/
def Goal.Within (goal : Goal) (frames : List Frame) : Prop :=
  ∀ line, goal = .call line → frames ≠ []

/-- Every expression may stand inside another part. -/
theorem Goal.within_cons (goal : Goal) (frame : Frame) (frames : List Frame) :
    goal.Within (frame :: frames) := by
  intro line _
  exact List.cons_ne_nil frame frames

/-- A call inside a line is an operand. -/
theorem callRead_within {s : ParseState} {goal : Goal} {frames : List Frame}
    (h : goal.Within frames) (function : String) (args : List Expr) :
    s.callRead goal frames function args
      = s.focusOn (.operator goal frames (.call function args) none) := by
  unfold ParseState.callRead
  split
  · rename_i line
    exact absurd rfl (h line rfl)
  · rfl

/-- Whether a state is one after an operand that is a given expression, once the parts that bind at
least as tightly as a level are closed. -/
def ParseState.Holds (s : ParseState) (goal : Goal) (frames : List Frame) (level : Nat) (e : Expr)
    (s' : ParseState) : Prop :=
  ∃ frames' value function, s' = s.focusOn (.operator goal frames' value function) ∧
    ∀ k ≤ level, reduce k frames' value = reduce k frames e

/-- Whether some tokens lead to an expression wherever an operand of a level may stand. -/
def Expr.ReadFrom (e : Expr) (level : Nat) (ws : List Written) : Prop :=
  ∀ (s : ParseState) (goal : Goal) (frames : List Frame), Admits level frames →
    goal.Within frames →
      (s.focusOn (.operand goal frames)).Leads (ws.map Written.token) (s.Holds goal frames level e)

/-- Whether the tokens that an expression is printed with lead to it. -/
def Expr.IsRead (e : Expr) : Prop := ∀ level gap, e.ReadFrom level (e.written level gap)

/-- A single token that is an operand. -/
theorem readFrom_token {e : Expr} {token : Token} (function : Option String) (level gap : Nat)
    (htells : ∀ negated close, (Phase.operand negated close).Tells token)
    (hstep : ∀ (s : ParseState) goal frames,
      s.atOperand goal frames token = some (s.focusOn (.operator goal frames e function))) :
    e.ReadFrom level [⟨gap, token⟩] := by
  intro s goal frames _ _
  exact ParseState.leads_cons (tells_operandPhase frames htells) (fun _ => hstep _ goal frames)
    ⟨frames, e, function, rfl, fun _ _ => rfl⟩

/-- A closing parenthesis closes an operand. -/
theorem leads_closeParen {s s' : ParseState} {goal : Goal} {frames : List Frame} {e : Expr}
    (h : s.Holds goal (.paren :: frames) 0 e s') :
    s'.Leads [.sign .closeParen] (· = s.focusOn (.operator goal frames e none)) := by
  obtain ⟨frames', value, function, rfl, hreduce⟩ := h
  have hclose := hreduce 0 (Nat.le_refl 0)
  refine ParseState.leads_cons (tells_of_accepts rfl (by simp)) (fun _ => ?_) rfl
  show ParseState.closeParen _ goal frames' value = _
  unfold ParseState.closeParen
  rw [reduceAll, hclose]
  rfl

/-- An operand between parentheses where these are needed. -/
theorem readFrom_enclose {e : Expr} {strength : Nat} {inside : Nat → List Written}
    (h : ∀ level gap, level ≤ strength → e.ReadFrom level (inside gap)) (level gap : Nat) :
    e.ReadFrom level (enclose (strength < level) gap inside) := by
  by_cases hneeded : strength < level
  · intro s goal frames _ _
    rw [enclose, if_pos (by simpa using hneeded), List.map_cons, List.map_append]
    refine ParseState.leads_cons
      (tells_operandPhase frames fun _ _ => tells_of_accepts rfl (by simp)) (fun _ => rfl) ?_
    rw [ParseState.leads_append]
    refine (h 0 0 (Nat.zero_le strength) s goal _ (admits_paren frames)
      (goal.within_cons _ frames)).mono fun s' hs' => ?_
    refine (leads_closeParen hs').mono fun s'' hs'' => ?_
    exact ⟨frames, e, none, hs'', fun _ _ => rfl⟩
  · rw [enclose, if_neg (by simpa using hneeded)]
    exact h level gap (Nat.le_of_not_lt hneeded)

/-- A state that holds an atom has no part open inside it. -/
theorem ParseState.Holds.atom {s s' : ParseState} {goal : Goal} {frames : List Frame} {e : Expr}
    (h : s.Holds goal frames atomLevel e s') :
    ∃ function, s' = s.focusOn (.operator goal frames e function) := by
  obtain ⟨frames', value, function, rfl, hreduce⟩ := h
  have hatom := hreduce atomLevel (Nat.le_refl atomLevel)
  rw [reduce_atomLevel, reduce_atomLevel, Prod.mk.injEq] at hatom
  obtain ⟨rfl, rfl⟩ := hatom
  exact ⟨function, rfl⟩

/-! ## Items -/

/-- Whether a state is one after the last of some items of a list or a call. -/
def ParseState.Collected (s : ParseState) (goal : Goal) (frames : List Frame)
    (part : List Expr → Frame) (items : List Expr) (s' : ParseState) : Prop :=
  ∃ frames' value function earlier last, s' = s.focusOn (.operator goal frames' value function) ∧
    reduceAll frames' value = (part earlier :: frames, last) ∧ (last :: earlier).reverse = items

/-- A comma leads to the next item. -/
theorem Collects.nextItem {part : List Expr → Frame} (h : Collects part) {s : ParseState}
    {goal : Goal} {frames frames' : List Frame} {value last : Expr} {earlier : List Expr}
    (hreduce : reduceAll frames' value = (part earlier :: frames, last)) :
    s.nextItem goal frames' value
      = some (s.focusOn (.operand goal (part (last :: earlier) :: frames))) := by
  unfold ParseState.nextItem
  rw [hreduce]
  cases h <;> rfl

/-- An item leads to the state after it. -/
theorem Collects.item {part : List Expr → Frame} (h : Collects part) {e : Expr} (he : e.IsRead)
    (gap : Nat) (s : ParseState) (goal : Goal) (frames : List Frame) (earlier : List Expr) :
    (s.focusOn (.operand goal (part earlier :: frames))).Leads
      ((e.written 0 gap).map Written.token)
      (s.Collected goal frames part (earlier.reverse ++ [e])) := by
  have hopen : reduceAll (part earlier :: frames) e = (part earlier :: frames, e) := by
    cases h <;> rfl
  refine (he 0 gap s goal _ (h.admits earlier frames) (goal.within_cons _ frames)).mono ?_
  rintro s' ⟨frames', value, function, rfl, hreduce⟩
  refine ⟨frames', value, function, earlier, e, rfl, ?_, by simp⟩
  rw [← hopen]
  exact hreduce 0 (Nat.le_refl 0)

/-- Further items are collected after a comma each. -/
theorem Collects.more {part : List Expr → Frame} (h : Collects part) {es : List Expr} :
    ∀ {s s' : ParseState} {goal : Goal} {frames : List Frame} {items : List Expr},
      (∀ e ∈ es, e.IsRead) → s.Collected goal frames part items s' →
      s'.Leads ((Expr.writtenMore es).map Written.token)
        (s.Collected goal frames part (items ++ es)) := by
  induction es with
  | nil =>
      intro s s' goal frames items _ hs'
      rw [List.append_nil]
      exact hs'
  | cons e es ih =>
      rintro s s' goal frames items hes ⟨frames', value, function, earlier, last, rfl, hreduce, rfl⟩
      rw [Expr.writtenMore, List.map_cons, List.map_append]
      refine ParseState.leads_cons (tells_of_accepts rfl (by simp)) (fun _ => h.nextItem hreduce) ?_
      rw [ParseState.leads_append]
      refine (h.item (hes e (by simp)) 1 s goal frames (last :: earlier)).mono fun s'' hs'' => ?_
      have hmore := ih (fun e he => hes e (by simp [he])) hs''
      rwa [List.append_assoc] at hmore

/-- Items lead to the state after the last. -/
theorem Collects.items {part : List Expr → Frame} (h : Collects part) {e : Expr} {es : List Expr}
    (he : e.IsRead) (hes : ∀ e ∈ es, e.IsRead) (s : ParseState) (goal : Goal)
    (frames : List Frame) :
    (s.focusOn (.operand goal (part [] :: frames))).Leads
      ((Expr.writtenItems (e :: es)).map Written.token)
      (s.Collected goal frames part (e :: es)) := by
  rw [Expr.writtenItems, List.map_append, ParseState.leads_append]
  exact (h.item he 0 s goal frames []).mono fun s' hs' => h.more hes hs'

/-- Items and a closing bracket are a list. -/
theorem leads_listItems {items : List Expr} (h : ∀ e ∈ items, e.IsRead) (s : ParseState)
    (goal : Goal) (frames : List Frame) :
    (s.focusOn (.operand goal (.list [] :: frames))).Leads
      (List.map Written.token (Expr.writtenItems items ++ [⟨0, .sign .closeBracket⟩]))
      (· = s.focusOn (.operator goal frames (.list items) none)) := by
  cases items with
  | nil =>
      exact ParseState.leads_cons (tells_of_accepts rfl (by simp)) (fun _ => rfl) rfl
  | cons e es =>
      rw [List.map_append, ParseState.leads_append]
      refine (Collects.list.items (h e (by simp)) (fun e he => h e (by simp [he])) s goal
        frames).mono ?_
      rintro s' ⟨frames', value, function, earlier, last, rfl, hreduce, hitems⟩
      refine ParseState.leads_cons (tells_of_accepts rfl (by simp)) (fun _ => ?_) rfl
      show ParseState.closeBracket _ goal frames' value = _
      unfold ParseState.closeBracket
      rw [hreduce, ← hitems]
      rfl

/-- Items and a closing parenthesis are the arguments of a call. -/
theorem leads_callItems {args : List Expr} (h : ∀ e ∈ args, e.IsRead) (s : ParseState)
    (goal : Goal) (frames : List Frame) (function : String) :
    (s.focusOn (.operand goal (.call function [] :: frames))).Leads
      (List.map Written.token (Expr.writtenItems args ++ [⟨0, .sign .closeParen⟩]))
      (· = s.callRead goal frames function args) := by
  cases args with
  | nil =>
      exact ParseState.leads_cons (tells_of_accepts rfl (by simp)) (fun _ => rfl) rfl
  | cons e es =>
      rw [List.map_append, ParseState.leads_append]
      refine ((Collects.call function).items (h e (by simp)) (fun e he => h e (by simp [he])) s goal
        frames).mono ?_
      rintro s' ⟨frames', value, function', earlier, last, rfl, hreduce, hitems⟩
      refine ParseState.leads_cons (tells_of_accepts rfl (by simp)) (fun _ => ?_) rfl
      show ParseState.closeParen _ goal frames' value = _
      unfold ParseState.closeParen
      rw [hreduce, ← hitems]
      rfl

/-! ## Expressions -/

/-- Integers are read with their sign. -/
theorem isRead_int (n : Int) : (Expr.num (.int n)).IsRead := by
  intro level gap
  have htells : ∀ negated close,
      (Phase.operand negated close).Tells (.number (digitsOf n.natAbs)) :=
    fun _ _ => tells_of_accepts rfl (by simp)
  rw [Expr.written]
  split
  · rename_i hneg
    refine readFrom_enclose (fun level gap hlevel s goal frames _ _ => ?_) level gap
    refine ParseState.leads_cons
      (tells_operandPhase frames fun _ _ => tells_of_accepts rfl (by simp)) (fun _ => rfl) ?_
    refine ParseState.leads_cons (tells_operandPhase (.unary .neg :: frames) htells)
      (fun _ => rfl) ⟨_, _, _, rfl, fun k hk => ?_⟩
    rw [reduce, if_pos (Nat.le_trans hk hlevel), ofDigits_digitsOf]
    have hvalue : -(n.natAbs : Int) = n := by omega
    rw [UnaryOp.apply, NumberLiteral.neg, hvalue]
  · rename_i hneg
    refine readFrom_token none level gap htells (fun s goal frames => ?_)
    have hvalue : (n.natAbs : Int) = n := by omega
    rw [ParseState.atOperand, ofDigits_digitsOf, hvalue]
    rfl

/-- Lists are read with their items. -/
theorem isRead_list {items : List Expr} (h : ∀ e ∈ items, e.IsRead) :
    (Expr.list items).IsRead := by
  intro level gap s goal frames _ _
  rw [Expr.written, List.map_cons]
  refine ParseState.leads_cons
    (tells_operandPhase frames fun _ _ => tells_of_accepts rfl (by simp)) (fun _ => rfl) ?_
  exact (leads_listItems h s goal frames).mono fun s' hs' =>
    ⟨frames, .list items, none, hs', fun _ _ => rfl⟩

/-- Members are read after their target. -/
theorem isRead_member {target : Expr} (h : target.IsRead) (field : String) :
    (Expr.member target field).IsRead := by
  intro level gap s goal frames _ hwithin
  rw [Expr.written, List.map_append, ParseState.leads_append]
  refine (h atomLevel gap s goal frames (admits_atomLevel frames) hwithin).mono fun s' hs' => ?_
  obtain ⟨function, rfl⟩ := hs'.atom
  refine ParseState.leads_cons (tells_of_accepts rfl (by simp)) (fun _ => rfl) ?_
  exact ParseState.leads_cons ⟨rfl, fun _ _ _ _ => rfl⟩ (fun _ => rfl)
    ⟨frames, .member target field, none, rfl, fun _ _ => rfl⟩

/-- Indexed elements are read after their target, with their index. -/
theorem isRead_index {target key : Expr} (htarget : target.IsRead) (hkey : key.IsRead) :
    (Expr.index target key).IsRead := by
  intro level gap s goal frames _ hwithin
  rw [Expr.written, List.map_append, ParseState.leads_append]
  refine (htarget atomLevel gap s goal frames (admits_atomLevel frames) hwithin).mono
    fun s' hs' => ?_
  obtain ⟨function, rfl⟩ := hs'.atom
  rw [List.map_cons, List.map_append]
  refine ParseState.leads_cons (tells_of_accepts rfl (by simp)) (fun _ => rfl) ?_
  rw [ParseState.leads_append]
  refine (hkey 0 0 s goal _ (admits_index target frames) (goal.within_cons _ frames)).mono ?_
  rintro s' ⟨frames', value, function', rfl, hreduce⟩
  have hclose := hreduce 0 (Nat.le_refl 0)
  refine ParseState.leads_cons (tells_of_accepts rfl (by simp)) (fun _ => ?_)
    ⟨frames, .index target key, none, rfl, fun _ _ => rfl⟩
  show ParseState.closeBracket _ goal frames' value = _
  unfold ParseState.closeBracket
  rw [reduceAll, hclose]
  rfl

/-- Calls are read with their arguments. -/
theorem isRead_call {function : String} {args : List Expr} (hfunction : isCallee function = true)
    (h : ∀ e ∈ args, e.IsRead) : (Expr.call function args).IsRead := by
  intro level gap s goal frames _ hwithin
  have hcallee : ∀ line, ∃ value,
      (s.focusOn (.operand goal frames)).step line (calleeToken function)
        = some (s.focusOn (.operator goal frames value (some function))) := by
    rcases calleeToken_cases hfunction with ⟨ident, hident, htoken, -⟩ | ⟨htoken, -⟩
    · rw [htoken, hident]
      exact fun _ => ⟨_, rfl⟩
    · rw [htoken]
      exact fun _ => ⟨_, rfl⟩
  rw [Expr.written, List.map_cons, List.map_cons]
  refine ⟨tells_operandPhase frames fun _ _ => tells_callee hfunction rfl rfl, fun line => ?_⟩
  obtain ⟨value, hvalue⟩ := hcallee line
  refine ⟨_, hvalue, ParseState.leads_cons (tells_of_accepts rfl (by simp)) (fun _ => rfl) ?_⟩
  refine (leads_callItems h s goal frames function).mono fun s' hs' => ?_
  rw [callRead_within hwithin] at hs'
  exact ⟨frames, .call function args, none, hs', fun _ _ => rfl⟩

/-- A binary operator closes its left operand. -/
theorem step_operator {s : ParseState} {goal : Goal} {frames : List Frame} {value : Expr}
    {function : Option String} (line : Nat) (op : BinaryOp) :
    (s.focusOn (.operator goal frames value function)).step line op.token
      = (pushBinary op frames value).map fun frames => s.focusOn (.operand goal frames) := by
  cases op <;> rfl

/-- The left operand of an operator binds at least as tightly as the operator. -/
theorem BinaryOp.level_le_leftLevel (op : BinaryOp) : op.level ≤ op.leftLevel := by
  cases op <;> decide

/-- Binary operators are read between their operands. -/
theorem isRead_binary (op : BinaryOp) {left right : Expr} (hleft : left.IsRead)
    (hright : right.IsRead) : (Expr.binary op left right).IsRead := by
  intro level gap
  rw [Expr.written]
  refine readFrom_enclose (fun level gap hlevel s goal frames hadmits hwithin => ?_) level gap
  have hadmits' := hadmits.mono (Nat.le_trans hlevel op.level_le_leftLevel)
  rw [List.map_append, ParseState.leads_append]
  refine (hleft op.leftLevel gap s goal frames hadmits' hwithin).mono ?_
  rintro s' ⟨frames', value, function, rfl, hreduce⟩
  have hpush : pushBinary op frames' value = some (.left op left :: frames) := by
    rw [pushBinary_congr (hreduce op.leftLevel (Nat.le_refl _)), hadmits.push op left hlevel]
  refine ParseState.leads_cons (tells_operator op _) (fun line => ?_)
    ((hright (op.level + 1) 1 s goal _ (admits_left op left frames)
      (goal.within_cons _ frames)).mono ?_)
  · rw [step_operator, hpush, Option.map_some]
  · rintro s'' ⟨frames'', value', function', rfl, hreduce'⟩
    refine ⟨frames'', value', function', rfl, fun k hk => ?_⟩
    have hkop : k ≤ op.level := Nat.le_trans hk hlevel
    rw [hreduce' k (Nat.le_succ_of_le hkop), reduce, if_pos hkop]

/-- Unary operators are read before their operand, unless that is a number with a sign. -/
theorem isRead_unary (op : UnaryOp) {operand : Expr} (h : operand.IsRead)
    (hoperand : op.apply operand = .unary op operand) : (Expr.unary op operand).IsRead := by
  intro level gap
  -- the two operators differ in their token, the space after it and where they can stand
  have hread : ∀ (token : Token) (more level gap : Nat), level ≤ op.level →
      (∀ frames, Admits level frames → (operandPhase frames).Tells token) →
      (∀ (s : ParseState) goal frames, s.atOperand goal frames token
        = some (s.focusOn (.operand goal (.unary op :: frames)))) →
      (Expr.unary op operand).ReadFrom level (⟨gap, token⟩ :: operand.written op.level more) := by
    intro token more level gap hlevel htells hstep s goal frames hadmits _
    rw [List.map_cons]
    refine ParseState.leads_cons (htells frames hadmits) (fun _ => hstep _ goal frames) ?_
    refine (h op.level more s goal _ (admits_unary op frames) (goal.within_cons _ frames)).mono ?_
    rintro s' ⟨frames', value, function, rfl, hreduce⟩
    refine ⟨frames', value, function, rfl, fun k hk => ?_⟩
    have hkop : k ≤ op.level := Nat.le_trans hk hlevel
    rw [hreduce k hkop, reduce, if_pos hkop, hoperand]
  cases op with
  | not =>
      rw [Expr.written]
      refine readFrom_enclose (fun level gap hlevel => ?_) level gap
      refine hread _ 1 level gap hlevel (fun frames hadmits => ?_) (fun _ _ _ => rfl)
      obtain ⟨close, hphase⟩ := hadmits.negated hlevel
      rw [hphase]
      exact tells_of_accepts rfl (by simp)
  | neg =>
      rw [Expr.written]
      refine readFrom_enclose (fun level gap hlevel => ?_) level gap
      refine hread _ 0 level gap hlevel (fun frames _ => ?_) (fun _ _ _ => rfl)
      exact tells_operandPhase frames fun _ _ => tells_of_accepts rfl (by simp)

mutual

/-- Printed expressions are read back. -/
theorem Expr.isRead {numbers : Int → Bool} (e : Expr) (h : e.isPrintable numbers = true) :
    e.IsRead := by
  match e with
  | .str value =>
      exact fun level gap => readFrom_token none level gap
        (fun _ _ => tells_of_accepts rfl (by simp)) (fun _ _ _ => rfl)
  | .num (.int n) => exact isRead_int n
  | .num (.float x) => exact absurd h (by simp [Expr.isPrintable])
  | .bool b | .null =>
      exact fun level gap => readFrom_token none level gap
        (fun _ _ => tells_of_accepts rfl (by simp)) (fun _ _ _ => rfl)
  | .var ident =>
      exact fun level gap => readFrom_token (some ("$" ++ ident)) level gap
        (fun _ _ => tells_of_accepts rfl (by simp)) (fun _ _ _ => rfl)
  | .name ident =>
      exact fun level gap => readFrom_token (some ident) level gap
        (fun _ _ => tells_bareName rfl h) (fun _ _ _ => rfl)
  | .list items => exact isRead_list (Expr.areRead items h)
  | .member target field =>
      simp only [Expr.isPrintable, Bool.and_eq_true] at h
      exact isRead_member (target.isRead h.1) field
  | .index target key =>
      simp only [Expr.isPrintable, Bool.and_eq_true] at h
      exact isRead_index (target.isRead h.1) (key.isRead h.2)
  | .call function args =>
      simp only [Expr.isPrintable, Bool.and_eq_true] at h
      exact isRead_call h.1 (Expr.areRead args h.2)
  | .binary op left right =>
      simp only [Expr.isPrintable, Bool.and_eq_true] at h
      exact isRead_binary op (left.isRead h.1) (right.isRead h.2)
  | .unary op operand =>
      simp only [Expr.isPrintable, Bool.and_eq_true, Bool.not_eq_true'] at h
      refine isRead_unary op (operand.isRead h.2) ?_
      cases op with
      | not => rfl
      | neg =>
          -- the opposite of a written number would be read as a number
          cases operand with
          | num value => simp [Expr.isNumber] at h
          | _ => rfl

/-- Printed items are read back. -/
theorem Expr.areRead {numbers : Int → Bool} (es : List Expr)
    (h : Expr.arePrintable numbers es = true) : ∀ e ∈ es, e.IsRead := by
  match es with
  | [] => simp
  | e :: es =>
      simp only [Expr.arePrintable, Bool.and_eq_true] at h
      exact List.forall_mem_cons.mpr ⟨Expr.isRead e h.1, Expr.areRead es h.2⟩

end

/-! ## Line numbers aside -/

mutual

/-- A statement without its line numbers. -/
def Stmt.unlined : Stmt → Stmt
  | .assign _ var path value => .assign 0 var path value
  | .branch _ condition body rest => .branch 0 condition (Stmt.unlinedAll body) rest.unlined
  | .foreach _ var collection body => .foreach 0 var collection (Stmt.unlinedAll body)
  | .call _ function args => .call 0 function args

/-- Alternatives without their line numbers. -/
def Alternatives.unlined : Alternatives → Alternatives
  | .done => .done
  | .otherwise body => .otherwise (Stmt.unlinedAll body)
  | .elif condition body rest => .elif condition (Stmt.unlinedAll body) rest.unlined

/-- Statements without their line numbers. -/
def Stmt.unlinedAll : List Stmt → List Stmt
  | [] => []
  | s :: ss => s.unlined :: Stmt.unlinedAll ss

end

/-! ## Lines -/

/-- Whatever may start the line after another may start one after a complete statement. -/
theorem LineKind.allows_complete {kind : LineKind} {k : Keyword} (h : kind.allows k = true) :
    LineKind.complete.allows k = true := by
  cases kind <;> cases k <;> first | rfl | simp [LineKind.allows] at h

/-- Statements may start on every line. -/
theorem tells_statement {kind : LineKind} {k : Keyword}
    (h : k = .set ∨ k = .branch ∨ k = .foreach) : (Phase.lineStart kind).Tells (.keyword k) := by
  refine tells_of_accepts ?_ (by simp)
  rcases h with rfl | rfl | rfl <;> cases kind <;> rfl

/-- What may follow the first line of a block may follow the statements in it. -/
theorem tells_inBlock {block : Block} {k : Keyword} (h : block.lineKind.allows k = true)
    (statements outer : List Stmt) (blocks : List (Block × List Stmt)) :
    (⟨.lineStart, statements, (block, outer) :: blocks⟩ : ParseState).place.phase.Tells
      (.keyword k) := by
  refine tells_of_accepts ?_ (by simp)
  cases statements with
  | nil => exact h
  | cons s statements => exact LineKind.allows_complete h

/-- An expression and a line end lead to where the complete expression does. -/
theorem leads_endOfLine {e : Expr} (he : e.IsRead) {s t : ParseState} {goal : Goal}
    {P : ParseState → Prop} (hend : s.endExpression goal e = some t) (hP : P t) :
    (s.focusOn (.operand goal [])).Leads (List.map Written.token (e.written 0 1 ++ [⟨0, .newline⟩]))
      P := by
  have hwithin : goal.Within [] := by
    rintro line rfl
    simp [ParseState.endExpression] at hend
  rw [List.map_append, ParseState.leads_append]
  refine (he 0 1 s goal [] admits_nil hwithin).mono ?_
  rintro s' ⟨frames, value, function, rfl, hreduce⟩
  have hclose := hreduce 0 (Nat.le_refl 0)
  refine ParseState.leads_cons (tells_of_accepts rfl (by simp)) (fun _ => ?_) hP
  show ParseState.endOfOperand _ goal frames value = _
  unfold ParseState.endOfOperand
  rw [reduceAll, hclose, ← hend]
  cases goal <;> rfl

/-- A path leads to the state after it. -/
theorem leads_writtenPath (s : ParseState) (line : Nat) (var : String) (path : List String) :
    ∀ earlier : List String,
      (s.focusOn (.afterTarget line var earlier)).Leads ((writtenPath path).map Written.token)
        (· = s.focusOn (.afterTarget line var (earlier ++ path))) := by
  induction path with
  | nil =>
      intro earlier
      rw [List.append_nil]
      rfl
  | cons field path ih =>
      intro earlier
      have hpath := ih (earlier ++ [field])
      rw [List.append_assoc, List.singleton_append] at hpath
      rw [writtenPath, List.flatMap_cons, ← writtenPath]
      refine ParseState.leads_cons (tells_of_accepts rfl (by simp)) (fun _ => rfl) ?_
      exact ParseState.leads_cons ⟨rfl, fun _ _ _ _ => rfl⟩ (fun _ => rfl) hpath

/-! ## Statements -/

/-- Whether the lines of a statement lead to it, its line numbers aside. -/
def Stmt.IsRead (statement : Stmt) : Prop :=
  ∀ (depth : Nat) (before : List Stmt) (blocks : List (Block × List Stmt)),
    (⟨.lineStart, before, blocks⟩ : ParseState).Leads ((statement.written depth).map Written.token)
      fun t => ∃ statement', statement'.unlined = statement.unlined ∧
        t = ⟨.lineStart, statement' :: before, blocks⟩

/-- Whether the lines of a block lead to its statements, their line numbers aside. -/
def Stmt.AreRead (body : List Stmt) : Prop :=
  ∀ (depth : Nat) (before : List Stmt) (blocks : List (Block × List Stmt)),
    (⟨.lineStart, before, blocks⟩ : ParseState).Leads
      ((Stmt.writtenAll depth body).map Written.token)
      fun t => ∃ body', Stmt.unlinedAll body' = Stmt.unlinedAll body ∧
        t = ⟨.lineStart, body'.reverse ++ before, blocks⟩

/-- Whether the lines of the alternatives complete the conditional they belong to, line numbers
aside. -/
def Alternatives.IsRead (rest : Alternatives) : Prop :=
  ∀ (depth line : Nat) (body outer : List Stmt) (earlier : List (Expr × List Stmt))
    (condition : Expr) (blocks : List (Block × List Stmt)),
    (⟨.lineStart, body.reverse, (.branch line earlier condition, outer) :: blocks⟩ :
      ParseState).Leads ((rest.written depth).map Written.token)
      fun t => ∃ rest', rest'.unlined = rest.unlined ∧
        t = ⟨.lineStart, closeBranches line (condition, body) earlier rest' :: outer, blocks⟩

/-- Assignments are read back. -/
theorem isRead_assign (line : Nat) (var : String) (path : List String) {value : Expr}
    (h : value.IsRead) : (Stmt.assign line var path value).IsRead := by
  intro depth before blocks
  rw [Stmt.written, List.map_cons, List.map_cons, List.map_append]
  refine ⟨tells_statement (.inl rfl), fun line' => ⟨_, rfl, ?_⟩⟩
  refine ParseState.leads_cons (tells_of_accepts rfl (by simp)) (fun _ => rfl) ?_
  rw [ParseState.leads_append]
  refine (leads_writtenPath ⟨.lineStart, before, blocks⟩ line' var path []).mono ?_
  rintro s' rfl
  refine ParseState.leads_cons (tells_of_accepts rfl (by simp)) (fun _ => rfl) ?_
  exact leads_endOfLine h rfl ⟨.assign line' var path value, rfl, rfl⟩

/-- Calls are read back. -/
theorem isRead_callLine (line : Nat) {function : String} {args : List Expr}
    (hfunction : isCallee function = true) (h : ∀ e ∈ args, e.IsRead) :
    (Stmt.call line function args).IsRead := by
  intro depth before blocks
  have hcallee : ∀ line, (⟨.lineStart, before, blocks⟩ : ParseState).step line
      (calleeToken function) = some ⟨.callOpen line function, before, blocks⟩ := by
    rcases calleeToken_cases hfunction with ⟨ident, hident, htoken, -⟩ | ⟨htoken, -⟩
    · rw [htoken, hident]
      exact fun _ => rfl
    · rw [htoken]
      exact fun _ => rfl
  have hitems : Expr.writtenItems args ++ [⟨0, .sign .closeParen⟩, ⟨0, .newline⟩]
      = (Expr.writtenItems args ++ [⟨0, .sign .closeParen⟩]) ++ [⟨0, .newline⟩] := by simp
  rw [Stmt.written, hitems, List.map_cons, List.map_cons, List.map_append]
  refine ⟨tells_callee hfunction rfl rfl, fun line' => ⟨_, hcallee line', ?_⟩⟩
  refine ParseState.leads_cons (tells_of_accepts rfl (by simp)) (fun _ => rfl) ?_
  rw [ParseState.leads_append]
  refine (leads_callItems h ⟨.lineStart, before, blocks⟩ (.call line') [] function).mono ?_
  rintro s' rfl
  exact ParseState.leads_cons (tells_of_accepts rfl (by simp)) (fun _ => rfl)
    ⟨.call line' function args, rfl, rfl⟩

/-- Conditionals are read back. -/
theorem isRead_branch (line : Nat) {condition : Expr} {body : List Stmt} {rest : Alternatives}
    (hcondition : condition.IsRead) (hbody : Stmt.AreRead body) (hrest : rest.IsRead) :
    (Stmt.branch line condition body rest).IsRead := by
  intro depth before blocks
  rw [Stmt.written, List.map_append, ParseState.leads_append, List.map_append]
  refine ⟨tells_statement (.inr (.inl rfl)), fun line' => ⟨_, rfl, ?_⟩⟩
  refine leads_endOfLine hcondition rfl ?_
  rw [ParseState.leads_append]
  refine (hbody (depth + 1) [] _).mono ?_
  rintro s' ⟨body', hbody', rfl⟩
  rw [List.append_nil]
  refine (hrest depth line' body' before [] condition blocks).mono ?_
  rintro s' ⟨rest', hrest', rfl⟩
  refine ⟨_, ?_, rfl⟩
  rw [closeBranches, Stmt.unlined, Stmt.unlined, hbody', hrest']

/-- Loops are read back. -/
theorem isRead_foreach (line : Nat) (var : String) {collection : Expr} {body : List Stmt}
    (hcollection : collection.IsRead) (hbody : Stmt.AreRead body) :
    (Stmt.foreach line var collection body).IsRead := by
  intro depth before blocks
  have hhead : collection.written 0 1 ++ ⟨0, .newline⟩ ::
        (Stmt.writtenAll (depth + 1) body ++ writtenLine depth .endForeach)
      = (collection.written 0 1 ++ [⟨0, .newline⟩]) ++
        (Stmt.writtenAll (depth + 1) body ++ writtenLine depth .endForeach) := by simp
  rw [Stmt.written, hhead, List.map_cons, List.map_cons, List.map_cons, List.map_append]
  refine ⟨tells_statement (.inr (.inr rfl)), fun line' => ⟨_, rfl, ?_⟩⟩
  refine ParseState.leads_cons (tells_of_accepts rfl (by simp)) (fun _ => rfl) ?_
  refine ParseState.leads_cons (tells_of_accepts rfl (by simp)) (fun _ => rfl) ?_
  rw [ParseState.leads_append]
  refine leads_endOfLine hcollection rfl ?_
  rw [List.map_append, ParseState.leads_append]
  refine (hbody (depth + 1) [] _).mono ?_
  rintro s' ⟨body', hbody', rfl⟩
  refine ParseState.leads_cons (tells_inBlock rfl _ _ _) (fun _ => rfl) ?_
  refine ParseState.leads_cons (tells_of_accepts rfl (by simp)) (fun _ => rfl)
    ⟨.foreach line' var collection body', ?_, ?_⟩
  · rw [Stmt.unlined, Stmt.unlined, hbody']
  · simp [ParseState.focusOn]

/-- The last line of a conditional completes it. -/
theorem isRead_done : Alternatives.done.IsRead := by
  intro depth line body outer earlier condition blocks
  refine ParseState.leads_cons (tells_inBlock rfl _ _ _) (fun _ => rfl) ?_
  refine ParseState.leads_cons (tells_of_accepts rfl (by simp)) (fun _ => rfl) ⟨.done, rfl, ?_⟩
  simp [ParseState.focusOn]

/-- Last branches are read back. -/
theorem isRead_otherwise {body : List Stmt} (h : Stmt.AreRead body) :
    (Alternatives.otherwise body).IsRead := by
  intro depth line previous outer earlier condition blocks
  simp only [Alternatives.written, writtenLine, List.map_append, List.map_cons, List.map_nil,
    List.cons_append, List.nil_append]
  refine ParseState.leads_cons (tells_inBlock rfl _ _ _) (fun _ => rfl) ?_
  refine ParseState.leads_cons (tells_of_accepts rfl (by simp)) (fun _ => rfl) ?_
  rw [ParseState.leads_append]
  refine (h (depth + 1) [] _).mono ?_
  rintro s' ⟨body', hbody', rfl⟩
  refine ParseState.leads_cons (tells_inBlock rfl _ _ _) (fun _ => rfl) ?_
  refine ParseState.leads_cons (tells_of_accepts rfl (by simp)) (fun _ => rfl)
    ⟨.otherwise body', ?_, ?_⟩
  · rw [Alternatives.unlined, Alternatives.unlined, hbody']
  · simp [ParseState.focusOn]

/-- Further branches are read back. -/
theorem isRead_elif {condition : Expr} {body : List Stmt} {rest : Alternatives}
    (hcondition : condition.IsRead) (hbody : Stmt.AreRead body) (hrest : rest.IsRead) :
    (Alternatives.elif condition body rest).IsRead := by
  intro depth line previous outer earlier first blocks
  rw [Alternatives.written, List.map_append, ParseState.leads_append, List.map_append]
  refine ParseState.leads_cons (tells_inBlock rfl _ _ _) (fun _ => rfl) ?_
  refine leads_endOfLine hcondition rfl ?_
  rw [ParseState.leads_append]
  refine (hbody (depth + 1) [] _).mono ?_
  rintro s' ⟨body', hbody', rfl⟩
  rw [List.append_nil]
  refine (hrest depth line body' outer _ condition blocks).mono ?_
  rintro s' ⟨rest', hrest', rfl⟩
  refine ⟨.elif condition body' rest', ?_, ?_⟩
  · rw [Alternatives.unlined, Alternatives.unlined, hbody', hrest']
  · simp [closeBranches]

mutual

/-- Printed statements are read back. -/
theorem Stmt.isRead {numbers : Int → Bool} (s : Stmt) (h : s.isPrintable numbers = true) :
    s.IsRead := by
  match s with
  | .assign line var path value =>
      simp only [Stmt.isPrintable, Bool.and_eq_true] at h
      exact isRead_assign line var path (value.isRead h.2)
  | .branch line condition body rest =>
      simp only [Stmt.isPrintable, Bool.and_eq_true] at h
      exact isRead_branch line (condition.isRead h.1.1) (Stmt.areRead body h.1.2) (rest.isRead h.2)
  | .foreach line var collection body =>
      simp only [Stmt.isPrintable, Bool.and_eq_true] at h
      exact isRead_foreach line var (collection.isRead h.1.2) (Stmt.areRead body h.2)
  | .call line function args =>
      simp only [Stmt.isPrintable, Bool.and_eq_true] at h
      exact isRead_callLine line h.1 (Expr.areRead args h.2)

/-- Printed alternatives are read back. -/
theorem Alternatives.isRead {numbers : Int → Bool} (rest : Alternatives)
    (h : rest.isPrintable numbers = true) : rest.IsRead := by
  match rest with
  | .done => exact isRead_done
  | .otherwise body => exact isRead_otherwise (Stmt.areRead body h)
  | .elif condition body rest =>
      simp only [Alternatives.isPrintable, Bool.and_eq_true] at h
      exact isRead_elif (condition.isRead h.1.1) (Stmt.areRead body h.1.2) (rest.isRead h.2)

/-- Printed blocks are read back. -/
theorem Stmt.areRead {numbers : Int → Bool} (body : List Stmt)
    (h : Stmt.arePrintable numbers body = true) : Stmt.AreRead body := by
  intro depth before blocks
  match body with
  | [] => exact ⟨[], rfl, rfl⟩
  | s :: body =>
      simp only [Stmt.arePrintable, Bool.and_eq_true] at h
      rw [Stmt.writtenAll, List.map_append, ParseState.leads_append]
      refine (s.isRead h.1 depth before blocks).mono ?_
      rintro t ⟨s', hs', rfl⟩
      refine (Stmt.areRead body h.2 depth (s' :: before) blocks).mono ?_
      rintro t ⟨body', hbody', rfl⟩
      refine ⟨s' :: body', ?_, by simp⟩
      rw [Stmt.unlinedAll, Stmt.unlinedAll, hs', hbody']

end

end Rubric.Script
