import SimpleServ.Http.Parser

/-
  How `parse_header` and `parse_message_headers` end on every view.

  A header line that is accepted is `name`, `": "`, `value`, one byte that ends the line and
  one byte more, whatever it is: the loop looks for the first of CR and LF and then removes
  two bytes. `HeaderBlock s headers body` is the language the loop accepts, `StrayHeaders`
  the views on which it leaves its view: a line without a space, a line that starts with a
  space, and a line end with nothing behind it. On any other view the loop returns an error;
  it never throws (`parseMessageHeaders_cases`).
-/

namespace SimpleServ.Http

open SimpleServ.Cxx SimpleServ.Utility StringParser Outcome

def NoLineEnd (v : Bytes) : Prop := ∀ y ∈ v, y ∉ crlf

/-- A field name as the parser can take it: no space, CR or LF. It may be empty or hold colons. -/
def FieldName (name : Bytes) : Prop := chr ' ' ∉ name ∧ NoLineEnd name

/-- `name: value` -/
def Header.line (header : Header) : Bytes := header.key ++ (lit ": " ++ header.value)

/-- The header can stand on a line of its own. -/
def Header.Readable (header : Header) : Prop := FieldName header.key ∧ NoLineEnd header.value

inductive HeaderBlock : Bytes → List Header → Bytes → Prop where
  | blank (body : Bytes) : HeaderBlock (crlf ++ body) [] body
  | line {header : Header} {x y : Byte} {rest : Bytes} {headers : List Header} {body : Bytes} :
      header.Readable → x ∈ crlf → HeaderBlock rest headers body →
      HeaderBlock (header.line ++ x :: y :: rest) (header :: headers) body

inductive StrayHeaders : Bytes → Prop where
  | unreadable {line : Bytes} {x : Byte} {rest : Bytes} :
      NoLineEnd line → x ∈ crlf → startsWith (line ++ x :: rest) crlf = false →
      (chr ' ' ∉ line ∨ ∃ l, line = chr ' ' :: l) → StrayHeaders (line ++ x :: rest)
  | cut {header : Header} {x : Byte} :
      header.Readable → x ∈ crlf → StrayHeaders (header.line ++ [x])
  | line {header : Header} {x y : Byte} {rest : Bytes} :
      header.Readable → x ∈ crlf → StrayHeaders rest →
      StrayHeaders (header.line ++ x :: y :: rest)

variable {str : Bytes} {c : Cursor str} {header : Header} {line rest : Bytes} {x y : Byte}

/-! ## One header line -/

theorem noLineEnd_append {v w : Bytes} : NoLineEnd (v ++ w) ↔ NoLineEnd v ∧ NoLineEnd w := by
  simp only [NoLineEnd, List.mem_append]
  constructor
  · intro h; exact ⟨fun y hy => h y (Or.inl hy), fun y hy => h y (Or.inr hy)⟩
  · rintro ⟨hv, hw⟩ y (hy | hy)
    · exact hv y hy
    · exact hw y hy

theorem Header.Readable.noLineEnd (h : header.Readable) : NoLineEnd header.line := by
  have hc : NoLineEnd (lit ": ") := by
    intro y hy
    rcases List.mem_pair.mp hy with rfl | rfl <;> decide
  exact noLineEnd_append.mpr ⟨h.1.2, noLineEnd_append.mpr ⟨hc, h.2⟩⟩

theorem parseHeader_line (h : chr ' ' ∉ header.key) :
    parseHeader header.line = ret (.ok header) := by
  have hs : chr ' ' ∉ header.key ++ [chr ':'] := by
    simp only [List.mem_append, List.mem_singleton, not_or]
    exact ⟨h, by decide⟩
  have hl : header.line = (header.key ++ [chr ':']) ++ chr ' ' :: header.value := by
    simp [Header.line, lit]
  have he : endsWithChar (header.key ++ [chr ':']) (chr ':') = true := by
    simp [endsWithChar]
  unfold parseHeader
  rw [hl, nextTokenOf_ret hs]
  simp [he, removeSuffix, removePrefix]

theorem parseHeader_ub (h : chr ' ' ∉ line ∨ ∃ l, line = chr ' ' :: l) : parseHeader line = ub := by
  rcases h with h | ⟨l, rfl⟩
  · simp [parseHeader, nextTokenOf_ub h]
  · have ht : nextTokenOf (chr ' ' :: l) (chr ' ') = ret ([], chr ' ' :: l) :=
      nextTokenOf_ret (a := []) (by simp)
    simp [parseHeader, ht, endsWithChar, back]

/-- How `parse_header` ends on a line. -/
theorem parseHeader_cases (line : Bytes) :
    (chr ' ' ∉ line ∨ ∃ l, line = chr ' ' :: l) ∨
    (∃ e, parseHeader line = ret (.error e)) ∨
    ∃ header : Header, line = header.line ∧ chr ' ' ∉ header.key := by
  by_cases hs : chr ' ' ∈ line
  swap
  · exact Or.inl (Or.inl hs)
  obtain ⟨a, b, rfl, ha⟩ := List.eq_append_cons_of_mem hs
  rcases List.eq_nil_or_concat a with rfl | ⟨name, z, rfl⟩
  · exact Or.inl (Or.inr ⟨b, rfl⟩)
  · right
    rw [List.concat_eq_append] at ha ⊢
    by_cases hz : z = chr ':'
    · subst hz
      right
      refine ⟨⟨name, b⟩, by simp [Header.line, lit], fun hn => ha (by simp [hn])⟩
    · left
      have he : endsWithChar (name ++ [z]) (chr ':') = false := by
        simp [endsWithChar, hz]
      unfold parseHeader
      rw [nextTokenOf_ret ha]
      simp [he, back]

/-! ## The loop -/

theorem line_not_crlf (h : header.Readable) (v : Bytes) :
    startsWith (header.line ++ v) crlf = false := by
  cases hs : startsWith (header.line ++ v) crlf with
  | false => rfl
  | true =>
    obtain ⟨rest, hr⟩ := startsWith_iff.mp hs
    obtain ⟨z, zs, hz⟩ : ∃ z zs, header.line = z :: zs := by
      apply List.exists_cons_of_ne_nil
      simp [Header.line, lit]
    have hz' : z ∉ crlf := h.noLineEnd z (by simp [hz])
    rw [hz, List.cons_append, show crlf ++ rest = chr '\r' :: (chr '\n' :: rest) from rfl,
      List.cons.injEq] at hr
    rw [hr.1] at hz'
    exact absurd (by decide) hz'

/-- One round over a line the loop can read. -/
theorem headersLoop_line (h : header.Readable) (hx : x ∈ crlf)
    (hc : c.view = header.line ++ x :: y :: rest) (acc : List Header) :
    ∃ c' : Cursor str, c'.view = rest ∧ headersLoop c acc = headersLoop c' (acc ++ [header]) := by
  have hc' : c.view = (header.line ++ [x, y]) ++ rest := by simp [hc]
  obtain ⟨c1, hr, h1⟩ := Cursor.removePrefix_append hc'
  have hlen : (header.line ++ [x, y]).length = header.line.length + 2 := by simp
  rw [hlen] at hr
  refine ⟨c1, h1, ?_⟩
  rw [headersLoop, hc, line_not_crlf h, findFirstOf_split h.noLineEnd hx]
  simp only [Bool.false_eq_true, if_false, substrTo_append, parseHeader_line h.1.1]
  rw [hr]

theorem headersLoop_ok {s body : Bytes} {headers : List Header} (h : HeaderBlock s headers body)
    (c : Cursor str) (hc : c.view = s) (acc : List Header) :
    ∃ c' : Cursor str, headersLoop c acc = ret (.ok (acc ++ headers, c')) ∧
      c'.view = crlf ++ body := by
  induction h generalizing c acc with
  | blank body =>
    refine ⟨c, ?_, hc⟩
    rw [headersLoop, hc, startsWith_append, if_pos rfl, List.append_nil]
  | line hh hx _ ih =>
    obtain ⟨c1, h1, hr⟩ := headersLoop_line hh hx hc acc
    obtain ⟨c2, h2, hv⟩ := ih c1 h1 (acc ++ [_])
    refine ⟨c2, ?_, hv⟩
    rw [hr, h2, List.append_assoc]
    rfl

theorem headersLoop_ub {s : Bytes} (h : StrayHeaders s) (c : Cursor str) (hc : c.view = s)
    (acc : List Header) : headersLoop c acc = ub := by
  induction h generalizing c acc with
  | unreadable hl hx hs hu =>
    rw [headersLoop, hc, hs, findFirstOf_split hl hx]
    simp only [Bool.false_eq_true, if_false, substrTo_append, parseHeader_ub hu]
  | @cut header x hh hx =>
    have hr : c.removePrefix (some (header.line.length + 2)) = ub := by
      simp [Cursor.removePrefix, hc]
    rw [headersLoop, hc, line_not_crlf hh, findFirstOf_split hh.noLineEnd hx]
    simp only [Bool.false_eq_true, if_false, substrTo_append, parseHeader_line hh.1.1]
    rw [hr]
  | line hh hx _ ih =>
    obtain ⟨c1, h1, hr⟩ := headersLoop_line hh hx hc acc
    rw [hr]
    exact ih c1 h1 _

/-- How the loop ends on a view; by induction on the length of the view. -/
theorem headersLoop_cases (n : Nat) (c : Cursor str) (hn : c.view.length ≤ n)
    (acc : List Header) :
    StrayHeaders c.view ∨ (∃ e, headersLoop c acc = ret (.error e)) ∨
      ∃ headers body, HeaderBlock c.view headers body := by
  induction n generalizing c acc with
  | zero =>
    have hv : c.view = [] := List.length_eq_zero_iff.mp (by omega)
    right; left
    rw [headersLoop, hv]
    exact ⟨_, rfl⟩
  | succ n ih =>
    cases hs : startsWith c.view crlf with
    | true =>
      obtain ⟨b, hb⟩ := startsWith_iff.mp hs
      exact Or.inr (Or.inr ⟨[], b, hb ▸ HeaderBlock.blank b⟩)
    | false =>
      rcases split_first (fun z => z ∈ crlf) c.view with hl | ⟨line, x, rest, hv, hx, hl⟩
      · right; left
        rw [headersLoop, hs, findFirstOf_none hl]
        exact ⟨_, rfl⟩
      rcases parseHeader_cases line with hu | ⟨e, he⟩ | ⟨header, rfl, hk⟩
      · left
        rw [hv] at hs ⊢
        exact .unreadable hl hx hs hu
      · right; left
        refine ⟨e, ?_⟩
        rw [headersLoop, hs, hv, findFirstOf_split hl hx]
        simp only [Bool.false_eq_true, if_false, substrTo_append, he]
      · have hh : header.Readable := by
          obtain ⟨hkl, hr⟩ := noLineEnd_append.mp hl
          exact ⟨⟨hk, hkl⟩, (noLineEnd_append.mp hr).2⟩
        cases rest with
        | nil => exact Or.inl (hv ▸ .cut hh hx)
        | cons y rest =>
          obtain ⟨c1, h1, hr⟩ := headersLoop_line hh hx hv acc
          have hlen : c1.view.length ≤ n := by
            rw [hv, ← h1] at hn
            simp only [List.length_append, List.length_cons] at hn
            omega
          rw [hr, hv, ← h1]
          rcases ih c1 hlen (acc ++ [header]) with hi | hi | ⟨headers, body, hi⟩
          · exact Or.inl (.line hh hx hi)
          · exact Or.inr (Or.inl hi)
          · exact Or.inr (Or.inr ⟨header :: headers, body, .line hh hx hi⟩)

/-! ## `parse_message_headers` -/

theorem parseMessageHeaders_yields {headers : List Header} {body : Bytes}
    (h : HeaderBlock c.view headers body) :
    Yields parseMessageHeaders c (.ok headers) (At body) := by
  obtain ⟨c1, hl, h1⟩ := headersLoop_ok h c rfl []
  obtain ⟨c2, hr, h2⟩ := Cursor.removePrefix_append h1
  refine ⟨c2, ?_, h2⟩
  have hr' : c1.removePrefix (some 2) = ret c2 := hr
  simp [parseMessageHeaders, hl, hr']

theorem parseMessageHeaders_strays (h : StrayHeaders c.view) : Strays parseMessageHeaders c := by
  simp [Strays, parseMessageHeaders, headersLoop_ub h c rfl]

/-- How `parse_message_headers` ends on a view. -/
theorem parseMessageHeaders_cases (c : Cursor str) :
    StrayHeaders c.view ∨ (∃ e, Yields parseMessageHeaders c (.error e) (At c.view)) ∨
      ∃ headers body, HeaderBlock c.view headers body := by
  rcases headersLoop_cases _ c (Nat.le_refl _) [] with h | ⟨e, h⟩ | h
  · exact Or.inl h
  · exact Or.inr (Or.inl ⟨e, c, by simp [parseMessageHeaders, h], rfl⟩)
  · exact Or.inr (Or.inr h)

/-- The language determines the headers and the body. -/
theorem HeaderBlock.unique {s body body' : Bytes} {headers headers' : List Header}
    (h : HeaderBlock s headers body) (h' : HeaderBlock s headers' body') :
    headers = headers' ∧ body = body' := by
  obtain ⟨c1, h1, hb⟩ := parseMessageHeaders_yields (c := Cursor.start s) h
  obtain ⟨c2, h2, hb'⟩ := parseMessageHeaders_yields (c := Cursor.start s) h'
  rw [h1, ret.injEq, Prod.mk.injEq, Except.ok.injEq] at h2
  obtain ⟨hh, rfl⟩ := h2
  exact ⟨hh, hb.symm.trans hb'⟩

end SimpleServ.Http
