import FilterClause.Proofs.JsonGrammar

/-!
# The layouts of a JSON text

Two texts of one value differ in the blanks outside strings only. `squeeze` takes these blanks out
of any text, with a reader that knows three places: outside strings, in a string, and in a string
behind a backslash. A written value is squeezed to its text without blanks (`squeeze_write`): gaps
vanish, and a written string leads from outside to outside and is kept (`squeezes_writeString`).
-/

namespace FilterClause.Json

open Text

/-! ## Blanks outside strings -/

/-- Where a reader of a JSON text stands. -/
inductive Place where
  | outside
  /-- In a string. -/
  | inside
  /-- In a string, behind a backslash. -/
  | escaped
deriving DecidableEq

/-- The place behind one more character. -/
def Place.next (c : Char) : Place → Place
  | .outside => if c = doubleQuote then .inside else .outside
  | .inside => if c = doubleQuote then .outside else if c = '\\' then .escaped else .inside
  | .escaped => .inside

/-- A text without the blanks outside its strings, read from a place on. -/
def squeezeFrom (p : Place) : Text → Text
  | [] => []
  | c :: t =>
    if p = .outside && isGap c then squeezeFrom p t else c :: squeezeFrom (p.next c) t

/-- A JSON text without the blanks outside its strings. -/
def squeeze (t : Text) : Text := squeezeFrom .outside t

/-! ## Texts that lead from outside to outside -/

/-- The text leads from outside strings to outside strings and is squeezed to `s`, whatever
follows it. -/
def Squeezes (t s : Text) : Prop := ∀ rest, squeeze (t ++ rest) = s ++ squeeze rest

theorem Squeezes.squeeze_eq {t s : Text} (h : Squeezes t s) : squeeze t = s := by
  have hnil := h []
  rwa [List.append_nil, show squeeze [] = [] from rfl, List.append_nil] at hnil

theorem Squeezes.append {t s t' s' : Text} (h : Squeezes t s) (h' : Squeezes t' s') :
    Squeezes (t ++ t') (s ++ s') := by
  intro rest
  rw [List.append_assoc, h, h', List.append_assoc]

theorem Gaps.squeezes {g : Text} (hg : Gaps g) : Squeezes g [] := by
  intro rest
  induction g with
  | nil => rfl
  | cons c g ih =>
    obtain ⟨hc, hg⟩ := List.forall_mem_cons.mp hg
    rw [squeeze, List.cons_append, squeezeFrom, if_pos (by simp [hc])]
    exact ih hg

/-- A character that is no blank and opens no string is kept. -/
theorem squeezes_singleton {c : Char} (hgap : isGap c = false) (hquote : c ≠ doubleQuote) :
    Squeezes [c] [c] := by
  intro rest
  rw [squeeze, List.cons_append, squeezeFrom, if_neg (by simp [hgap]), Place.next, if_neg hquote]
  rfl

theorem squeezes_ofNat (n : Nat) : Squeezes (ofNat n) (ofNat n) := by
  have hdigits : ∀ c ∈ ofNat n, c.isDigit = true := fun c hc => isDigit_of_mem_ofNat hc
  generalize ofNat n = t at hdigits
  induction t with
  | nil => exact fun rest => rfl
  | cons c t ih =>
    obtain ⟨hc, ht⟩ := List.forall_mem_cons.mp hdigits
    have hquote : c ≠ doubleQuote := by rintro rfl; exact absurd hc (by decide)
    exact (squeezes_singleton (isGap_of_isDigit hc) hquote).append (ih ht)

/-! ## Strings -/

theorem squeezeFrom_inside (c : Char) (t : Text) :
    squeezeFrom .inside (c :: t) = c :: squeezeFrom (Place.inside.next c) t := by
  rw [squeezeFrom, if_neg (by simp)]

theorem squeezeFrom_plain {c : Char} (hquote : c ≠ doubleQuote) (hc : c ≠ '\\') (t : Text) :
    squeezeFrom .inside (c :: t) = c :: squeezeFrom .inside t := by
  rw [squeezeFrom_inside, Place.next, if_neg hquote, if_neg hc]

/-- A backslash takes the next character with it, also a quote. -/
theorem squeezeFrom_backslash (c : Char) (t : Text) :
    squeezeFrom .inside ('\\' :: c :: t) = '\\' :: c :: squeezeFrom .inside t := by
  rw [squeezeFrom_inside]
  rfl

theorem hexDigit_plain : ∀ n < 16, hexDigit n ≠ doubleQuote ∧ hexDigit n ≠ '\\' := by decide

/-- An escaped character is kept, and the reader is still in the string behind it. -/
theorem squeezeFrom_escape (c : Char) (t : Text) :
    squeezeFrom .inside (escape c ++ t) = escape c ++ squeezeFrom .inside t := by
  unfold escape
  split_ifs with hquote hb hf hn hr htab hspace
  · exact squeezeFrom_backslash c t
  · exact squeezeFrom_backslash 'b' t
  · exact squeezeFrom_backslash 'f' t
  · exact squeezeFrom_backslash 'n' t
  · exact squeezeFrom_backslash 'r' t
  · exact squeezeFrom_backslash 't' t
  · have hc := toNat_lt_of_lt_space hspace
    have hhigh := hexDigit_plain (c.toNat / 16) (by omega)
    have hlow := hexDigit_plain (c.toNat % 16) (by omega)
    simp only [List.cons_append, List.nil_append]
    rw [squeezeFrom_backslash, squeezeFrom_plain (by decide) (by decide),
      squeezeFrom_plain (by decide) (by decide), squeezeFrom_plain hhigh.1 hhigh.2,
      squeezeFrom_plain hlow.1 hlow.2]
  · have hc : c ≠ doubleQuote ∧ c ≠ '\\' := by simpa using hquote
    exact squeezeFrom_plain hc.1 hc.2 t

/-- A written string is kept with all that it holds. -/
theorem squeezes_writeString (s : Text) : Squeezes (writeString s) (writeString s) := by
  intro rest
  have hbody (t : Text) : squeezeFrom .inside (s.flatMap escape ++ t) =
      s.flatMap escape ++ squeezeFrom .inside t := by
    induction s with
    | nil => rfl
    | cons c s ih => rw [List.flatMap_cons, List.append_assoc, squeezeFrom_escape, ih,
        List.append_assoc]
  rw [writeString_append, writeString_append]
  change doubleQuote :: squeezeFrom .inside _ = _
  rw [hbody]
  rfl

/-! ## Written values -/

section Elements

variable {α : Type} {f g : α → Text} {xs : List α} (h : ∀ x ∈ xs, Squeezes (f x) (g x))

include h

theorem squeezes_join : Squeezes (join [','] (xs.map f)) (join [','] (xs.map g)) := by
  induction xs with
  | nil => exact gaps_nil.squeezes
  | cons x xs ih =>
    obtain ⟨hx, hxs⟩ := List.forall_mem_cons.mp h
    cases xs with
    | nil => simpa only [List.map_singleton, join_singleton] using hx
    | cons y xs =>
      rw [join_map_cons_cons, join_map_cons_cons]
      exact (hx.append (squeezes_singleton rfl (by decide))).append (ih hxs)

/-- Elements between brackets lose the blanks in front of them and those in front of the closing
bracket. -/
theorem squeezes_enclose {l : Layout} (hl : l.Spaced) (depth depth' : Nat) {opening closing : Char}
    (hopening : Squeezes [opening] [opening]) (hclosing : Squeezes [closing] [closing]) :
    Squeezes (l.enclose depth opening closing (xs.map f))
      (Layout.compact.enclose depth' opening closing (xs.map g)) := by
  unfold Layout.enclose
  cases xs with
  | nil => exact hopening.append hclosing
  | cons x xs =>
    rw [if_neg (by simp), if_neg (by simp), List.map_map, List.map_map]
    have hjoin := squeezes_join fun y hy => (hl.newLine (depth + 1)).squeezes.append (h y hy)
    exact ((hopening.append hjoin).append (hl.newLine depth).squeezes).append hclosing

end Elements

/-- A written value is squeezed to its text without blanks, at every depth. -/
theorem squeezes_writeAt {l : Layout} (hl : l.Spaced) (depth depth' : Nat) (v : Value) :
    Squeezes (v.writeAt l depth) (v.writeAt .compact depth') := by
  have hsign {c : Char} (hc : c ∈ ['[', ']', '\x7b', '\x7d', ':']) : Squeezes [c] [c] := by
    apply squeezes_singleton <;> revert c <;> decide
  induction v using Value.induction generalizing depth depth' with
  | number n => rw [Value.writeAt, Value.writeAt]; exact squeezes_ofNat n
  | string t => rw [Value.writeAt, Value.writeAt]; exact squeezes_writeString t
  | array vs ih =>
    rw [Value.writeAt, Value.writeAt, writeItems_eq_map, writeItems_eq_map]
    exact squeezes_enclose (fun v hv => ih v hv (depth + 1) (depth' + 1)) hl depth depth'
      (hsign (by decide)) (hsign (by decide))
  | object ms ih =>
    rw [Value.writeAt, Value.writeAt, writeMembers_eq_map, writeMembers_eq_map]
    refine squeezes_enclose (fun m hm => ?_) hl depth depth' (hsign (by decide))
      (hsign (by decide))
    have hvalue := hl.afterColon.squeezes.append (ih m hm (depth + 1) (depth' + 1))
    have hcolon : Squeezes [':'] [':'] := hsign (by decide)
    have hmember := (squeezes_writeString m.1).append (hcolon.append hvalue)
    rw [writeString_append, writeString_append] at hmember
    exact hmember

/-- A text of a value in any layout, without the blanks outside strings, is its text in the layout
without blanks. -/
theorem squeeze_write {l : Layout} (hl : l.Spaced) (v : Value) :
    squeeze (v.write l) = v.write .compact :=
  (squeezes_writeAt hl 0 0 v).squeeze_eq

/-- A blank in a string is kept, also behind a quote that does not end the string. -/
example : squeeze "[ \"a \\\" b\" ]".toList = "[\"a \\\" b\"]".toList := by decide

end FilterClause.Json
