import SimpleServ.Cxx.Cursor

/-
  `utility::StringParser` and `utility::parser_error` (string_parser.hpp).

  The parser's state is its cursor `view` into `str`; its methods are actions on the cursor.
  The source location that `parser_error` adds to its text is left out. `process_function`
  hands the view over by reference: a function it runs is an action on the same cursor.

  Each method has one lemma for each way it can end: what it returns and where it leaves the
  cursor, when it throws, and when it strays outside a view.
-/

namespace SimpleServ.Utility

open SimpleServ.Cxx Outcome

/-- `parser_error`: the message it was built with, `none` for the default constructor. -/
structure ParserError where
  message : Option Bytes
  deriving DecidableEq, Repr

def parserError (message : Bytes) : ParserError := ⟨some message⟩

/-- Actions of a `StringParser` on the string `str`. -/
abbrev ParserM (str : Bytes) := StateT (Cursor str) Outcome

namespace StringParser

variable {str : Bytes}

def move (steps : Nat) : ParserM str Unit := do
  let c ← get
  set (← c.removePrefix (some steps))

def expect (chars : Bytes) : ParserM str (Option ParserError) := do
  let c ← get
  if !startsWith c.view chars then
    return some (parserError (lit "Expected characters: " ++ chars ++ lit ", got " ++ c.view))
  set (← c.removePrefix (some chars.length))
  return none

def expectTwo (char1 char2 : Byte) : ParserM str (Option ParserError) := do
  let c ← get
  if !startsWithChar c.view char1 && !startsWithChar c.view char2 then
    -- the message reads `view[0]`, also when the view is empty
    let view0 ← front c.view
    return some (parserError (lit "Expected character: " ++ [char1] ++ lit " (" ++
      decimal (charToInt char1) ++ lit ") or " ++ [char2] ++ lit " (" ++
      decimal (charToInt char2) ++ lit "), got " ++ str ++ lit " (" ++
      decimal (charToInt view0) ++ lit ")"))
  set (← c.removePrefix (some 1))
  return none

/-- The loop of `consume_all_two`. -/
def consumeLoop (char1 char2 : Byte) (c : Cursor str) : Outcome (Cursor str) :=
  if startsWithChar c.view char1 || startsWithChar c.view char2 then
    match _h : c.removePrefix (some 1) with
    | ret c' => consumeLoop char1 char2 c'
    | .throw e => .throw e
    | ub => ub
    | killed => killed
  else ret c
termination_by c.view.length
decreasing_by exact Cursor.removePrefix_shorter (by decide) _h

def consumeAllTwo (char1 char2 : Byte) : ParserM str Unit := do
  let c ← get
  set (← consumeLoop char1 char2 c)

def head : ParserM str Byte := do
  let c ← get
  let h ← atZero c.view
  return h

def nextToken (delim : Byte) : ParserM str Bytes := do
  let c ← get
  let «end» := findFirstOf c.view [delim]
  let token := substrTo c.view «end»
  set (← c.removePrefix «end»)
  return token

/-- The static `next_token`: the token and the view from the delimiter on. -/
def nextTokenOf (view : Bytes) (delim : Byte) : Outcome (Bytes × Bytes) := do
  let «end» := findFirstOf view [delim]
  let token := substrTo view «end»
  let rest ← removePrefix view «end»
  return (token, rest)

/-! ## How each method ends -/

variable {c : Cursor str} {a rest v : Bytes} {x y char1 char2 delim : Byte}

theorem move_yields (h : c.view = a ++ rest) : Yields (move a.length) c () (At rest) := by
  obtain ⟨c', hc, hv⟩ := Cursor.removePrefix_append h
  exact ⟨c', by simp [move, hc], hv⟩

theorem move_one_yields (h : c.view = x :: rest) : Yields (move 1) c () (At rest) :=
  move_yields (a := [x]) h

theorem expect_yields (h : c.view = a ++ rest) : Yields (expect a) c none (At rest) := by
  obtain ⟨c', hc, hv⟩ := Cursor.removePrefix_append h
  refine ⟨c', ?_, hv⟩
  simp [expect, h, hc]

theorem expect_rejects (h : startsWith c.view a = false) :
    ∃ e, Yields (expect a) c (some e) (At c.view) :=
  ⟨_, c, by simp [expect, h]; rfl, rfl⟩

/-- An `expect` whose result is ignored. -/
theorem expect_skips (a : Bytes) (c : Cursor str) :
    ∃ r, Yields (expect a) c r (At (skip a c.view)) := by
  cases h : startsWith c.view a with
  | true =>
    obtain ⟨rest, hv⟩ := startsWith_iff.mp h
    rw [hv, skip_append]
    exact ⟨none, expect_yields hv⟩
  | false =>
    rw [skip_of_not h]
    obtain ⟨e, he⟩ := expect_rejects h
    exact ⟨some e, he⟩

theorem expectTwo_yields (h : c.view = x :: rest) (hx : x = char1 ∨ x = char2) :
    Yields (expectTwo char1 char2) c none (At rest) := by
  obtain ⟨c', hc, hv⟩ := Cursor.removePrefix_append (a := [x]) h
  refine ⟨c', ?_, hv⟩
  simp only [List.length_singleton] at hc
  rcases hx with rfl | rfl <;> simp [expectTwo, startsWithChar, h, hc]

theorem expectTwo_rejects (h : c.view = x :: rest) (h1 : x ≠ char1) (h2 : x ≠ char2) :
    ∃ e, Yields (expectTwo char1 char2) c (some e) (At (x :: rest)) := by
  exact ⟨_, c, by simp [expectTwo, startsWithChar, h, h1, h2, front]; rfl, h⟩

theorem expectTwo_strays (h : c.view = []) : Strays (expectTwo char1 char2) c := by
  simp [Strays, expectTwo, startsWithChar, h, front]

theorem consumeLoop_ret (h : c.view = a ++ rest) (ha : ∀ y ∈ a, y = char1 ∨ y = char2)
    (hr : NotAhead (fun y => y = char1 ∨ y = char2) rest) :
    ∃ c', consumeLoop char1 char2 c = ret c' ∧ c'.view = rest := by
  induction a generalizing c with
  | nil =>
    refine ⟨c, ?_, h⟩
    have ht : (startsWithChar c.view char1 || startsWithChar c.view char2) = false := by
      cases rest with
      | nil => simp [startsWithChar, h]
      | cons y ys =>
        have := notAhead_cons.mp hr
        simpa [startsWithChar, h] using this
    rw [consumeLoop, ht]
    simp
  | cons x xs ih =>
    obtain ⟨c', hc, hv⟩ := Cursor.removePrefix_append (a := [x]) h
    obtain ⟨c'', hc'', hv'⟩ := ih (c := c') hv (fun y hy => ha y (by simp [hy]))
    refine ⟨c'', ?_, hv'⟩
    have ht : (startsWithChar c.view char1 || startsWithChar c.view char2) = true := by
      rcases ha x (by simp) with rfl | rfl <;> simp [startsWithChar, h]
    simp only [List.length_singleton] at hc
    rw [consumeLoop, ht, hc]
    simpa using hc''

theorem consumeAllTwo_yields (h : c.view = a ++ rest) (ha : ∀ y ∈ a, y = char1 ∨ y = char2)
    (hr : NotAhead (fun y => y = char1 ∨ y = char2) rest) :
    Yields (consumeAllTwo char1 char2) c () (At rest) := by
  obtain ⟨c', hc, hv⟩ := consumeLoop_ret h ha hr
  exact ⟨c', by simp [consumeAllTwo, hc], hv⟩

theorem head_yields (h : c.view = x :: rest) : Yields head c x (At (x :: rest)) :=
  ⟨c, by simp [head, h, atZero], h⟩

theorem head_throws (h : c.view = []) : Throws head c :=
  ⟨.out_of_range, by simp [head, h, atZero]⟩

theorem nextToken_yields (h : c.view = a ++ delim :: rest) (ha : delim ∉ a) :
    Yields (nextToken delim) c a (At (delim :: rest)) := by
  obtain ⟨c', hc, hv⟩ := Cursor.removePrefix_append h
  exact ⟨c', by simp [nextToken, h, findFirstOf_byte ha, hc, substrTo_append], hv⟩

theorem nextToken_strays (h : delim ∉ c.view) : Strays (nextToken delim) c := by
  simp [Strays, nextToken, findFirstOf_byte_none h, Cursor.removePrefix]

theorem nextTokenOf_ret (ha : delim ∉ a) :
    nextTokenOf (a ++ delim :: rest) delim = ret (a, delim :: rest) := by
  simp [nextTokenOf, findFirstOf_byte ha, substrTo_append, removePrefix_append]

theorem nextTokenOf_ub (h : delim ∉ v) : nextTokenOf v delim = ub := by
  simp [nextTokenOf, findFirstOf_byte_none h, removePrefix]

end StringParser

end SimpleServ.Utility
