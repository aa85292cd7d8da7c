import Rubric.Proofs.Script.LineCode

/-!
# What the keyword pass keeps

The pass that repairs keywords first replaces spellings at the start of a line, then goes over the
code of the line word by word.  It is followed here token by token.

* `upperKeywords_reads_iff` : which token is kept, and that the words after it are looked at next;
* `canonicalCode_reads_iff` : the same of the first token on a line, where spellings matter.
-/

namespace Rubric.Script

open Rubric.Text

/-! ## Words -/

/-- Whether a word right after the character is no keyword. -/
def glues (c : Char) : Bool := c = '$' || c = '.' || isWord c

/-- Whether a word right after some characters is no keyword, `glued` saying the same of a word in
their place. -/
def gluedAfter (glued : Bool) (t : List Char) : Bool := t.foldl (fun _ c => glues c) glued

/-- Letters and digits are glued to a word after them. -/
theorem glues_of_isIdentRest {c : Char} (h : isIdentRest c = true) : glues c = true := by
  simp [glues, isWord, h]

/-- Whether a word after some characters is no keyword depends on the last of them. -/
theorem gluedAfter_eq {glued : Bool} {t : List Char} {c : Char} (h : t.getLast? = some c) :
    gluedAfter glued t = glues c := by
  obtain ⟨before, rfl⟩ := List.getLast?_eq_some_iff.mp h
  rw [gluedAfter, List.foldl_append]
  rfl

/-- After letters and digits a word goes on. -/
theorem gluedAfter_run (glued : Bool) {t : List Char} (ht : IsRun t) :
    gluedAfter glued t = true := by
  obtain ⟨hword, c, more, rfl, -⟩ := ht
  have hlast := List.getLast?_eq_some_getLast (List.cons_ne_nil c more)
  rw [gluedAfter_eq hlast]
  exact glues_of_isIdentRest (hword _ (List.getLast_mem _))

/-- A character that starts neither a string nor a word is kept. -/
theorem upperKeywords_char {glued : Bool} {c : Char} {cs : List Char} (hliteral : literalLength? (c :: cs) = none)
    (hkept : glued = true ∨ isIdentStart c = false) :
    upperKeywords glued (c :: cs) = c :: upperKeywords (glues c) cs := by
  rw [upperKeywords, hliteral]
  rcases hkept with rfl | hkept
  · rfl
  · simp [hkept, glues]

/-- So is a character of code that starts no word. -/
theorem upperKeywords_cons {glued : Bool} {c : Char} (hc : IsCode c)
    (h : glued = true ∨ isIdentStart c = false) (cs : List Char) :
    upperKeywords glued (c :: cs) = c :: upperKeywords (glues c) cs :=
  upperKeywords_char (hc.literalLength?_eq_none cs) h

/-- Characters that start neither a string nor a word are kept. -/
theorem upperKeywords_append {t : List Char} (ht : ∀ c ∈ t, IsPlain c ∧ isIdentStart c = false)
    (glued : Bool) (cs : List Char) :
    upperKeywords glued (t ++ cs) = t ++ upperKeywords (gluedAfter glued t) cs := by
  induction t generalizing glued with
  | nil => rfl
  | cons c t ih =>
      have hc := ht c List.mem_cons_self
      rw [List.cons_append, upperKeywords_cons hc.1.2 (.inr hc.2),
        ih fun d hd => ht d (List.mem_cons_of_mem c hd)]
      rfl

/-- A word that goes on is kept. -/
theorem upperKeywords_glued {t : List Char} (ht : ∀ c ∈ t, isIdentRest c = true)
    (cs : List Char) : upperKeywords true (t ++ cs) = t ++ upperKeywords true cs := by
  induction t with
  | nil => rfl
  | cons c t ih =>
      have hc := ht c List.mem_cons_self
      rw [List.cons_append, upperKeywords_cons (isPlain_of_isIdentRest hc).2 (.inl rfl),
        glues_of_isIdentRest hc, ih fun d hd => ht d (List.mem_cons_of_mem c hd), List.cons_append]

/-- A word that nothing is glued to is put into its case. -/
theorem upperKeywords_word {word : List Char} (hword : IsRun word) {cs : List Char}
    (hcs : ∀ c ∈ cs.head?, isIdentRest c = false) :
    upperKeywords false (word ++ cs) = keywordCase word ++ upperKeywords true cs := by
  obtain ⟨hrest, c, more, rfl, hc⟩ := hword
  have htake : (more ++ cs).takeWhile isIdentRest = more :=
    takeWhile_append_stop (fun d hd => hrest d (List.mem_cons_of_mem c hd)) hcs
  have hcode := (isPlain_of_isIdentRest (hrest c List.mem_cons_self)).2
  rw [List.cons_append, upperKeywords, hcode.literalLength?_eq_none]
  simp only [Bool.not_false, hc, Bool.and_self, if_true, htake, List.take_left, List.drop_left]

/-- A string is kept, and the words after it are looked at. -/
theorem upperKeywords_literal {glued : Bool} {c : Char} {rest : List Char} {n : Nat}
    (h : literalLength? (c :: rest) = some n) :
    upperKeywords glued (c :: rest)
      = c :: rest.take (n - 1) ++ upperKeywords false (rest.drop (n - 1)) := by
  rw [upperKeywords, h]

/-- Induction on how the keywords of a code are found: its strings, its words, and its other characters. -/
@[elab_as_elim]
theorem upperKeywords_induction {motive : Bool → List Char → Prop} (nil : ∀ glued, motive glued [])
    (literal : ∀ glued c rest n, literalLength? (c :: rest) = some n →
      motive false (rest.drop (n - 1)) → motive glued (c :: rest))
    (word : ∀ word rest, IsRun word → (∀ c ∈ rest.head?, isIdentRest c = false) →
      motive true rest → motive false (word ++ rest))
    (char : ∀ glued c rest, literalLength? (c :: rest) = none → (glued = true ∨ isIdentStart c = false) →
      motive (glues c) rest → motive glued (c :: rest))
    (glued : Bool) (cs : List Char) : motive glued cs := by
  fun_induction upperKeywords glued cs with
  | case1 glued => exact nil glued
  | case2 glued c rest n hliteral ih => exact literal glued c rest n hliteral ih
  | case3 glued c rest hliteral hword more ih =>
      rw [Bool.and_eq_true, Bool.not_eq_true'] at hword
      obtain ⟨rfl, hstart⟩ := hword
      obtain ⟨run, others, rfl, hrun, hstop⟩ := exists_run isIdentRest rest
      have hmore : more = run.length := congrArg List.length (takeWhile_append_stop hrun hstop)
      rw [hmore, List.drop_left] at ih
      refine word (c :: run) others ⟨?_, c, run, rfl, hstart⟩ hstop ih
      exact List.forall_mem_cons.mpr ⟨isIdentRest_of_isIdentStart c hstart, hrun⟩
  | case4 glued c rest hliteral hword ih =>
      refine char glued c rest hliteral ?_ ih
      rwa [Bool.and_eq_true, Bool.not_eq_true', not_and_or, Bool.not_eq_false, Bool.not_eq_true] at hword

/-- A word is kept where it is no keyword in another case, together with what goes on with it. -/
theorem upperKeywords_run {t : List Char} (ht : IsRun t) (cs : List Char)
    (h : keywordCase (t ++ cs.takeWhile isIdentRest) = t ++ cs.takeWhile isIdentRest)
    (glued : Bool) : upperKeywords glued (t ++ cs) = t ++ upperKeywords true cs := by
  cases glued with
  | true => exact upperKeywords_glued ht.1 cs
  | false =>
      obtain ⟨run, rest, rfl, hrun, hrest⟩ := exists_run isIdentRest cs
      obtain ⟨hword, c, more, rfl, hc⟩ := ht
      have hboth : IsRun (c :: more ++ run) :=
        ⟨fun d hd => (List.mem_append.mp hd).elim (hword d) (hrun d), c, more ++ run, rfl, hc⟩
      rw [takeWhile_append_stop hrun hrest] at h
      rw [upperKeywords_glued hrun, ← List.append_assoc, upperKeywords_word hboth hrest, h,
        List.append_assoc]

/-- Putting words into their case keeps their lengths. -/
theorem length_keywordCase (word : List Char) : (keywordCase word).length = word.length := by
  unfold keywordCase
  by_cases h : (Keyword.ofText? (String.ofList (word.map Char.toUpper))).isSome = true
  · rw [if_pos h, List.length_map]
  · rw [if_neg h]

/-- Putting the words of a text into their case keeps its length. -/
theorem length_upperKeywords (glued : Bool) (cs : List Char) :
    (upperKeywords glued cs).length = cs.length := by
  induction glued, cs using upperKeywords_induction with
  | nil => rw [upperKeywords]
  | literal glued c rest n hliteral ih =>
      rw [upperKeywords_literal hliteral]
      simp only [List.cons_append, List.length_cons, List.length_append, List.length_take,
        List.length_drop] at ih ⊢
      omega
  | word word rest hword hstop ih =>
      rw [upperKeywords_word hword hstop, List.length_append, length_keywordCase, ih, List.length_append]
  | char glued c rest hliteral hkept ih =>
      rw [upperKeywords_char hliteral hkept, List.length_cons, List.length_cons, ih]

/-- Whether a name is a reserved word in another letter case. -/
def isMiscased (ident : String) : Bool :=
  (Keyword.ofText? (String.ofList (ident.toList.map Char.toUpper))).isSome &&
    (Keyword.ofText? ident).isNone

/-- Reserved words are in upper case. -/
theorem toUpper_text (k : Keyword) : k.text.toList.map Char.toUpper = k.text.toList := by
  cases k <;> first | decide | (rename_i b; cases b <;> decide)

/-- A word is kept if and only if it is no keyword in another case. -/
theorem keywordCase_eq_self_iff {word : List Char} :
    keywordCase word = word ↔ isMiscased (String.ofList word) = false := by
  unfold isMiscased keywordCase
  rw [String.toList_ofList]
  by_cases hupper : (Keyword.ofText? (String.ofList (word.map Char.toUpper))).isSome = true
  · rw [if_pos hupper, hupper, Bool.true_and, Option.isNone_eq_false_iff]
    constructor
    · intro hword
      rw [hword] at hupper
      exact hupper
    · intro hsome
      obtain ⟨k, hk⟩ := Option.isSome_iff_exists.mp hsome
      have hword : k.text.toList = word := by rw [text_of_ofText? hk, String.toList_ofList]
      rw [← hword, toUpper_text]
  · rw [if_neg hupper]
    simp [hupper]

/-- A reserved word is kept. -/
theorem keywordCase_text (k : Keyword) : keywordCase k.text.toList = k.text.toList := by
  rw [keywordCase_eq_self_iff, String.ofList_toList, isMiscased, ofText?_text]
  simp

/-- No keyword starts with an operator word but that word. -/
theorem operator_append {j k : Keyword} {run : List Char} (hk : k = .or ∨ k = .and ∨ k = .mem)
    (h : j.text.toList = k.text.toList ++ run) : run = [] := by
  cases j with
  | bool b => cases b <;> rcases hk with rfl | rfl | rfl <;> simp [Keyword.text] at h
  | _ => rcases hk with rfl | rfl | rfl <;> simp_all [Keyword.text]

/-- A word that starts with an operator is kept. -/
theorem keywordCase_operator {k : Keyword} (hk : k = .or ∨ k = .and ∨ k = .mem)
    (run : List Char) : keywordCase (k.text.toList ++ run) = k.text.toList ++ run := by
  by_cases hrun : run = []
  · rw [hrun, List.append_nil, keywordCase_text]
  · unfold keywordCase
    rw [if_neg]
    intro hsome
    obtain ⟨j, hj⟩ := Option.isSome_iff_exists.mp hsome
    have htext : j.text.toList = k.text.toList ++ run.map Char.toUpper := by
      rw [text_of_ofText? hj, String.toList_ofList, List.map_append, toUpper_text]
    exact hrun (List.map_eq_nil_iff.mp (operator_append hk htext))

/-- The words of a token are kept, whatever code goes on after it, unless it is a name that is a
reserved word in another letter case. -/
theorem upperKeywords_reads {token : Token} {t rest code : List Char} {glued : Bool}
    (h : Reads token t rest) (hnewline : token ≠ .newline) (hcode : code <+: rest)
    (hname : glued = false → ∀ ident, token = .name ident → isMiscased ident = false) :
    upperKeywords glued (t ++ code) = t ++ upperKeywords (gluedAfter glued t) code := by
  -- a word ends in the code where it ends in the text
  have hstop : (∀ c ∈ rest.head?, isIdentRest c = false) → code.takeWhile isIdentRest = [] := by
    intro hrest
    cases code with
    | nil => rfl
    | cons c more =>
        obtain ⟨after, rfl⟩ := hcode
        rw [List.takeWhile_cons_of_neg (by simpa using hrest c rfl)]
  cases h with
  | name hword hrest =>
      rw [gluedAfter_run glued hword]
      cases glued with
      | true => exact upperKeywords_glued hword.1 code
      | false =>
          apply upperKeywords_run hword
          rw [hstop hrest, List.append_nil, keywordCase_eq_self_iff]
          exact hname rfl _ rfl
  | keyword hrest =>
      rw [gluedAfter_run glued (isRun_text _)]
      apply upperKeywords_run (isRun_text _)
      rw [hstop hrest, List.append_nil]
      exact keywordCase_text _
  | operator hk =>
      -- the code may go on with the word, whose rest is read as a name
      rw [gluedAfter_run glued (isRun_text _)]
      exact upperKeywords_run (isRun_text _) code (keywordCase_operator hk _) glued
  | @var word _ hword =>
      have hdollar : IsCode '$' := by decide
      have hglued : gluedAfter glued ('$' :: word) = true := gluedAfter_run true hword
      rw [hglued, List.cons_append, upperKeywords_cons hdollar (.inr (by decide))]
      exact congrArg _ (upperKeywords_glued hword.1 code)
  | number hne hdigits =>
      refine upperKeywords_append (fun c hc => ?_) glued code
      rcases hdigits c hc with hc | rfl
      · exact ⟨isPlain_of_isDecimal hc, isIdentStart_of_isDecimal hc⟩
      · decide
  | @str quote value inner _ hquote hlength =>
      have hglues : glues quote = false := by rcases hquote with rfl | rfl <;> decide
      obtain ⟨-, hlast, hliteral⟩ := literalLength?_append hquote hlength
      rw [gluedAfter_eq hlast, hglues, List.cons_append, upperKeywords, hliteral code]
      simp
  | newline => exact absurd rfl hnewline
  | crlf => exact absurd rfl hnewline
  | @sign s =>
      exact upperKeywords_append s.isPlain_of_mem glued code

/-- The words of a token and of the code after it are kept if and only if the token is no name that
is a reserved word in another letter case, and the words of that code are kept. -/
theorem upperKeywords_reads_iff {token : Token} {t rest code : List Char} {glued : Bool}
    (h : Reads token t rest) (hnewline : token ≠ .newline) (hcode : code <+: rest) :
    upperKeywords glued (t ++ code) = t ++ code ↔
      (glued = false → ∀ ident, token = .name ident → isMiscased ident = false) ∧
        upperKeywords (gluedAfter glued t) code = code := by
  by_cases hname : glued = false → ∀ ident, token = .name ident → isMiscased ident = false
  · rw [upperKeywords_reads h hnewline hcode hname, List.append_right_inj]
    exact (and_iff_right hname).symm
  · refine iff_of_false (fun hkept => hname ?_) fun hboth => hname hboth.1
    rintro rfl ident rfl
    cases h with
    | name hword hrest =>
        have hstop : ∀ c ∈ code.head?, isIdentRest c = false := by
          obtain ⟨after, rfl⟩ := hcode
          cases code with
          | nil => simp
          | cons c more => exact hrest
        rw [upperKeywords_word hword hstop] at hkept
        rw [← keywordCase_eq_self_iff]
        exact List.append_inj_left hkept (length_keywordCase t)

/-! ## Spellings -/

/-- The letters that spellings are made of. -/
def spellingLetters : List Char := ['A', 'C', 'D', 'E', 'F', 'H', 'I', 'L', 'N', 'O', 'R', 'S']

/-- What is taken for a letter is that letter in either case, or a variant of it. -/
theorem eq_of_isLetter {letter c : Char} (h : isLetter letter c = true) :
    c = letter ∨ c = letter.toLower ∨ c ∈ ['İ', 'ı', 'ſ'] := by
  simp only [isLetter, Bool.or_eq_true, Bool.and_eq_true, decide_eq_true_eq] at h
  rcases h with ((h | h) | ⟨-, h⟩) | ⟨-, h⟩
  · exact .inl h
  · exact .inr (.inl h)
  · rcases h with h | h <;> simp [h]
  · simp [h]

/-- What is taken for a letter of a spelling is a word character. -/
theorem isWord_of_isLetter {letter c : Char} (hletter : letter ∈ spellingLetters)
    (h : isLetter letter c = true) : isWord c = true := by
  have hletters : ∀ d ∈ spellingLetters, isWord d = true := List.all_eq_true.mp (by decide)
  have hlower : ∀ d ∈ spellingLetters, isWord d.toLower = true := List.all_eq_true.mp (by decide)
  have hvariants : ∀ d ∈ ['İ', 'ı', 'ſ'], isWord d = true := List.all_eq_true.mp (by decide)
  rcases eq_of_isLetter h with rfl | rfl | hc
  · exact hletters c hletter
  · exact hlower letter hletter
  · exact hvariants c hc

/-- In an identifier only a letter in either case is taken for it. -/
theorem toUpper_of_isLetter {letter c : Char} (hletter : letter ∈ spellingLetters)
    (hident : isIdentRest c = true) (h : isLetter letter c = true) : c.toUpper = letter := by
  have hletters : ∀ d ∈ spellingLetters, (d.toUpper == d) = true :=
    List.all_eq_true.mp (by decide)
  have hlower : ∀ d ∈ spellingLetters, (d.toLower.toUpper == d) = true :=
    List.all_eq_true.mp (by decide)
  have hvariants : ∀ d ∈ ['İ', 'ı', 'ſ'], (!isIdentRest d) = true := List.all_eq_true.mp (by decide)
  rcases eq_of_isLetter h with rfl | rfl | hc
  · exact eq_of_beq (hletters c hletter)
  · exact eq_of_beq (hlower letter hletter)
  · have hnot := hvariants c hc
    rw [hident] at hnot
    exact absurd hnot (by decide)

/-- A letter of a spelling is taken for itself in either case. -/
theorem isLetter_of_toUpper {letter c : Char} (hletter : letter ∈ spellingLetters)
    (hc : isIdentRest c = true) (h : c.toUpper = letter) : isLetter letter c = true := by
  have hall : ∀ n < 128, spellingLetters.contains (Char.ofNat n).toUpper = true →
      isLetter (Char.ofNat n).toUpper (Char.ofNat n) = true := by decide +kernel
  have hbound : c.toNat < 128 := by
    have hrange := toNat_of_isIdentRest hc
    omega
  have hself := hall c.toNat hbound
  rw [Char.ofNat_toNat, h] at hself
  exact hself (List.contains_iff_mem.mpr hletter)

/-- Where letters have to end in a word, what follows the word does not matter. -/
theorem afterLetters_append {letters word rest : List Char}
    (hrest : ∀ c ∈ rest.head?, ∀ letter ∈ letters, isLetter letter c = false) :
    afterLetters letters (word ++ rest) = (afterLetters letters word).map (· ++ rest) := by
  induction letters generalizing word with
  | nil => rfl
  | cons letter letters ih =>
      cases word with
      | nil =>
          cases rest with
          | nil => rfl
          | cons c rest => simp [afterLetters, hrest c rfl letter List.mem_cons_self]
      | cons c word =>
          have hrest' : ∀ d ∈ rest.head?, ∀ l ∈ letters, isLetter l d = false :=
            fun d hd l hl => hrest d hd l (List.mem_cons_of_mem letter hl)
          simp only [List.cons_append, afterLetters]
          by_cases hc : isLetter letter c = true
          · rw [if_pos hc, if_pos hc, ih hrest']
          · rw [if_neg hc, if_neg hc, Option.map_none]

/-- What stands before the text after letters is these letters in either case. -/
theorem afterLetters_eq_some {letters word rest : List Char}
    (hletters : ∀ letter ∈ letters, letter ∈ spellingLetters)
    (hword : ∀ c ∈ word, isIdentRest c = true) (h : afterLetters letters word = some rest) :
    ∃ start, word = start ++ rest ∧ start.map Char.toUpper = letters := by
  induction letters generalizing word with
  | nil =>
      obtain rfl : word = rest := by simpa [afterLetters] using h
      exact ⟨[], rfl, rfl⟩
  | cons letter letters ih =>
      cases word with
      | nil => simp [afterLetters] at h
      | cons c word =>
          simp only [afterLetters] at h
          split_ifs at h with hc
          obtain ⟨start, rfl, hstart⟩ := ih (fun l hl => hletters l (List.mem_cons_of_mem letter hl))
            (fun d hd => hword d (List.mem_cons_of_mem c hd)) h
          have hupper := toUpper_of_isLetter (hletters letter List.mem_cons_self)
            (hword c List.mem_cons_self) hc
          exact ⟨c :: start, rfl, by rw [List.map_cons, hupper, hstart]⟩

/-- Whether code goes on like that of a call after its name: with an opening parenthesis, perhaps
after blanks, unless there is nothing. -/
structure OpensCall (code : List Char) : Prop where
  head : ∀ c ∈ code.head?, isWord c = false
  paren : ∀ c ∈ (trimLeft code).head?, c = '('

/-- A call does not go on with a letter of a spelling. -/
theorem OpensCall.isLetter_eq_false {code : List Char} (h : OpensCall code) :
    ∀ c ∈ code.head?, ∀ letter ∈ spellingLetters, isLetter letter c = false := by
  intro c hc letter hletter
  rw [Bool.eq_false_iff]
  intro his
  have hword := isWord_of_isLetter hletter his
  rw [h.head c hc] at hword
  exact absurd hword (by decide)

/-- No letters of a spelling start a call. -/
theorem OpensCall.afterLetters_trimLeft {code letters : List Char} (h : OpensCall code)
    (hletters : ∀ letter ∈ letters, letter ∈ spellingLetters) (hne : letters ≠ []) :
    afterLetters letters (trimLeft code) = none := by
  obtain ⟨letter, more, rfl⟩ := List.exists_cons_of_ne_nil hne
  cases hcode : trimLeft code with
  | nil => rfl
  | cons c rest =>
      obtain rfl : c = '(' := h.paren c (by rw [hcode]; rfl)
      have hparen : isLetter letter '(' = false := by
        rw [Bool.eq_false_iff]
        intro his
        exact absurd (isWord_of_isLetter (hletters letter List.mem_cons_self) his) (by decide)
      simp [afterLetters, hparen]

/-- A spelling in several words is none where a call follows the first word. -/
theorem afterSpelling_apart {first second : String} {parts : List SpellingPart}
    {word code : List Char} (hfirst : ∀ letter ∈ first.toList, letter ∈ spellingLetters)
    (hsecond : ∀ letter ∈ second.toList, letter ∈ spellingLetters) (hne : second.toList ≠ [])
    (hword : ∀ c ∈ word, isIdentRest c = true) (hcode : OpensCall code) :
    afterSpelling (.letters first :: .blanks 1 :: .letters second :: parts) (word ++ code)
      = none := by
  have hletters : afterLetters first.toList (word ++ code)
      = (afterLetters first.toList word).map (· ++ code) :=
    afterLetters_append fun c hc l hl => hcode.isLetter_eq_false c hc l (hfirst l hl)
  unfold afterSpelling
  cases hrest : afterLetters first.toList word with
  | none => simp [SpellingPart.rest?, hletters, hrest]
  | some rest =>
      rw [hrest, Option.map_some] at hletters
      obtain ⟨start, hsplit, -⟩ := afterLetters_eq_some hfirst hword hrest
      cases rest with
      | nil =>
          -- the call that follows is taken for neither blanks nor letters
          by_cases hblanks : 1 ≤ (leadingBlanks code).length
          · simp [SpellingPart.rest?, hletters, hblanks, hcode.afterLetters_trimLeft hsecond hne]
          · simp [SpellingPart.rest?, hletters, hblanks]
      | cons c rest =>
          have hblank := (isPlain_of_isIdentRest (hword c (by simp [hsplit]))).1
          simp [SpellingPart.rest?, hletters, leadingBlanks, hblank]

/-- A word is no spelling unless it is written with its letters in either case. -/
theorem afterSpelling_word {letters : String} {word code : List Char}
    (hletters : ∀ letter ∈ letters.toList, letter ∈ spellingLetters)
    (hword : ∀ c ∈ word, isIdentRest c = true) (hcode : OpensCall code)
    (hne : word.map Char.toUpper ≠ letters.toList) :
    afterSpelling [.letters letters] (word ++ code) = none := by
  have hafter : afterLetters letters.toList (word ++ code)
      = (afterLetters letters.toList word).map (· ++ code) :=
    afterLetters_append fun c hc l hl => hcode.isLetter_eq_false c hc l (hletters l hl)
  unfold afterSpelling
  cases hrest : afterLetters letters.toList word with
  | none => simp [SpellingPart.rest?, hafter, hrest]
  | some rest =>
      rw [hrest, Option.map_some] at hafter
      obtain ⟨start, hsplit, hstart⟩ := afterLetters_eq_some hletters hword hrest
      cases rest with
      | nil =>
          rw [List.append_nil] at hsplit
          rw [hsplit] at hne
          exact absurd hstart hne
      | cons c rest =>
          have hc : isWord c = true := isWord_of_isIdentRest c (hword c (by simp [hsplit]))
          simp [SpellingPart.rest?, hafter, hc]

/-- A text is kept by spellings none of which it starts with. -/
theorem foldl_respell_eq_self {all : List (List SpellingPart × Keyword)} {cs : List Char}
    (h : ∀ spelling ∈ all, afterSpelling spelling.1 cs = none) :
    all.foldl (fun cs spelling => respell spelling cs) cs = cs := by
  induction all with
  | nil => rfl
  | cons spelling all ih =>
      have hkept : respell spelling cs = cs := by
        rw [respell, h spelling List.mem_cons_self]
      rw [List.foldl_cons, hkept]
      exact ih fun other hother => h other (List.mem_cons_of_mem spelling hother)

/-- A text without a spelling at its start is kept. -/
theorem respellAll_eq_self {cs : List Char}
    (h : ∀ spelling ∈ spellings, afterSpelling spelling.1 cs = none) : respellAll cs = cs :=
  foldl_respell_eq_self h

/-- Whether a name is the spelling of a further branch in one word. -/
def isElseif (ident : String) : Bool := ident.toList.map Char.toUpper == "ELSEIF".toList

/-- Letters in either case are what the text after them follows. -/
theorem afterLetters_word {letters word : List Char}
    (hletters : ∀ letter ∈ letters, letter ∈ spellingLetters)
    (hword : ∀ c ∈ word, isIdentRest c = true) (h : word.map Char.toUpper = letters) :
    afterLetters letters word = some [] := by
  induction word generalizing letters with
  | nil =>
      subst h
      rfl
  | cons c word ih =>
      subst h
      have hc := isLetter_of_toUpper (hletters _ List.mem_cons_self) (hword c List.mem_cons_self) rfl
      rw [List.map_cons, afterLetters, if_pos hc]
      exact ih (fun l hl => hletters l (List.mem_cons_of_mem _ hl))
        (fun d hd => hword d (List.mem_cons_of_mem c hd)) rfl

/-- A spelling in one word ends where its letters end, unless the word goes on. -/
theorem afterSpelling_letters {letters : String} {cs rest : List Char}
    (h : afterLetters letters.toList cs = some rest) (hrest : ∀ c ∈ rest.head?, isWord c = false) :
    afterSpelling [.letters letters] cs = some rest := by
  unfold afterSpelling
  cases rest with
  | nil => simp [SpellingPart.rest?, h]
  | cons c rest => simp [SpellingPart.rest?, h, hrest c rfl]

/-- The spelling of a further branch in one word is replaced where a call follows. -/
theorem respellAll_elseif {word code : List Char} (hword : ∀ c ∈ word, isIdentRest c = true)
    (hcode : OpensCall code) (h : isElseif (String.ofList word) = true) :
    respellAll (word ++ code) = "ELIF".toList ++ code := by
  rw [isElseif, String.toList_ofList, beq_iff_eq] at h
  have hend : afterSpelling [.letters "END", .blanks 1, .letters "IF"] (word ++ code) = none :=
    afterSpelling_apart (by simp [spellingLetters]) (by simp [spellingLetters]) (by simp) hword
      hcode
  have helse : afterSpelling [.letters "ELSE", .blanks 1, .letters "IF"] (word ++ code) = none :=
    afterSpelling_apart (by simp [spellingLetters]) (by simp [spellingLetters]) (by simp) hword
      hcode
  have hletters : afterLetters "ELSEIF".toList (word ++ code) = some code := by
    have hmem : ∀ letter ∈ "ELSEIF".toList, letter ∈ spellingLetters := by simp [spellingLetters]
    rw [afterLetters_append fun c hc l hl => hcode.isLetter_eq_false c hc l (hmem l hl),
      afterLetters_word hmem hword h]
    rfl
  have helseif : afterSpelling [.letters "ELSEIF"] (word ++ code) = some code :=
    afterSpelling_letters hletters hcode.head
  simp only [respellAll, spellings, List.foldl_cons, List.foldl_nil, respell, hend, helse, helseif]
  rfl

/-- A name that a call follows is no spelling, with one exception. -/
theorem respellAll_name {word code : List Char} (hword : ∀ c ∈ word, isIdentRest c = true)
    (hcode : OpensCall code) (h : isElseif (String.ofList word) = false) :
    respellAll (word ++ code) = word ++ code := by
  rw [isElseif, String.toList_ofList, beq_eq_false_iff_ne] at h
  apply respellAll_eq_self
  intro spelling hspelling
  simp only [spellings, List.mem_cons, List.not_mem_nil, or_false] at hspelling
  rcases hspelling with rfl | rfl | rfl | rfl | rfl
  · exact afterSpelling_apart (by simp [spellingLetters]) (by simp [spellingLetters]) (by simp)
      hword hcode
  · exact afterSpelling_apart (by simp [spellingLetters]) (by simp [spellingLetters]) (by simp)
      hword hcode
  · exact afterSpelling_word (by simp [spellingLetters]) hword hcode h
  · exact afterSpelling_apart (by simp [spellingLetters]) (by simp [spellingLetters]) (by simp)
      hword hcode
  · exact afterSpelling_apart (by simp [spellingLetters]) (by simp [spellingLetters]) (by simp)
      hword hcode

/-- A reserved word is no spelling, unless it is the start of one. -/
theorem respellAll_text {k : Keyword} {code : List Char} (h : k = .otherwise → code = []) :
    respellAll (k.text.toList ++ code) = k.text.toList ++ code := by
  apply respellAll_eq_self
  intro spelling hspelling
  simp only [spellings, List.mem_cons, List.not_mem_nil, or_false] at hspelling
  cases k with
  | otherwise =>
      rw [h rfl]
      rcases hspelling with rfl | rfl | rfl | rfl | rfl <;> rfl
  | bool b => cases b <;> rcases hspelling with rfl | rfl | rfl | rfl | rfl <;> rfl
  | _ => rcases hspelling with rfl | rfl | rfl | rfl | rfl <;> rfl

/-- What does not start with a letter starts with no spelling. -/
theorem respellAll_cons {c : Char} (hc : isIdentStart c = false) (code : List Char) :
    respellAll (c :: code) = c :: code := by
  apply respellAll_eq_self
  intro spelling hspelling
  have hletter : ∀ letter ∈ ['E', 'F'], isLetter letter c = false := by
    intro letter hletter
    rw [Bool.eq_false_iff]
    intro his
    simp only [List.mem_cons, List.not_mem_nil, or_false] at hletter
    rcases hletter with rfl | rfl <;> simp [isLetter] at his <;>
      rcases his with rfl | rfl <;> exact absurd hc (by decide)
  have hend : isLetter 'E' c = false := hletter 'E' (by simp)
  have hfor : isLetter 'F' c = false := hletter 'F' (by simp)
  simp only [spellings, List.mem_cons, List.not_mem_nil, or_false] at hspelling
  rcases hspelling with rfl | rfl | rfl | rfl | rfl <;>
    simp [afterSpelling, SpellingPart.rest?, afterLetters, hend, hfor]

/-! ## The start of a line -/

/-- The first token on a line is kept as it is spelled, whatever code goes on after it. -/
theorem respellAll_reads {token : Token} {t rest code : List Char} (h : Reads token t rest)
    (hnewline : token ≠ .newline)
    (hname : ∀ ident, token = .name ident → OpensCall code ∧ isElseif ident = false)
    (helse : token = .keyword .otherwise → code = []) : respellAll (t ++ code) = t ++ code := by
  cases h with
  | name hword =>
      obtain ⟨hcode, helseif⟩ := hname _ rfl
      exact respellAll_name hword.1 hcode helseif
  | keyword => exact respellAll_text fun hk => helse (by rw [hk])
  | operator => exact respellAll_text fun hk => helse (by rw [hk])
  | var => exact respellAll_cons (by decide) _
  | number hne hdigits =>
      obtain ⟨c, more, rfl⟩ := List.exists_cons_of_ne_nil hne
      refine respellAll_cons ?_ _
      rcases hdigits c List.mem_cons_self with hc | rfl
      · exact isIdentStart_of_isDecimal hc
      · decide
  | str hquote => exact respellAll_cons (by rcases hquote with rfl | rfl <;> decide) _
  | newline => exact absurd rfl hnewline
  | crlf => exact absurd rfl hnewline
  | @sign s =>
      obtain ⟨c, more, hchars, hc, -⟩ := s.chars_eq
      rw [hchars]
      exact respellAll_cons hc _

/-- The code of a line is kept if and only if the first token is no name that is taken for a
reserved word, and the words of the code after it are kept. -/
theorem canonicalCode_reads_iff {token : Token} {t rest code : List Char} (h : Reads token t rest)
    (hnewline : token ≠ .newline) (hcode : code <+: rest)
    (hcall : ∀ ident, token = .name ident → OpensCall code)
    (helse : token = .keyword .otherwise → code = []) :
    canonicalCode (t ++ code) = t ++ code ↔
      (∀ ident, token = .name ident → isElseif ident = false ∧ isMiscased ident = false) ∧
        upperKeywords (gluedAfter false t) code = code := by
  unfold canonicalCode
  by_cases helseif : ∀ ident, token = .name ident → isElseif ident = false
  · rw [respellAll_reads h hnewline (fun ident hi => ⟨hcall ident hi, helseif ident hi⟩) helse,
      upperKeywords_reads_iff h hnewline hcode]
    refine and_congr_left fun _ => ?_
    exact ⟨fun hname ident hi => ⟨helseif ident hi, hname rfl ident hi⟩,
      fun hname _ ident hi => (hname ident hi).2⟩
  · -- the spelling that replaces a name is shorter than the name
    refine iff_of_false (fun hkept => helseif ?_) fun hboth => helseif fun ident hi =>
      (hboth.1 ident hi).1
    rintro ident rfl
    cases h with
    | name hword =>
        rw [← Bool.not_eq_true]
        intro his
        rw [respellAll_elseif hword.1 (hcall _ rfl) his] at hkept
        have hlength := congrArg List.length hkept
        have hword' : t.length = 6 := by
          rw [isElseif, String.toList_ofList, beq_iff_eq] at his
          simpa using congrArg List.length his
        rw [length_upperKeywords, List.length_append, List.length_append, hword'] at hlength
        exact absurd (Nat.add_right_cancel hlength) (by decide)

end Rubric.Script
