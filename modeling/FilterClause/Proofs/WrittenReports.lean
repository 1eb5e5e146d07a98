import FilterClause.Report
import FilterClause.Proofs.JsonLayouts
import FilterClause.Proofs.WireFormats

/-!
# Reports are read back

The members of a report are those of its place and, behind them, those of its result. A reader of
one kind passes over the members of the other (`members_append_of_passed`): a written value can
always be passed over (`skip_ofValue`), and no member of a place has the key of a member of a
result. So an array of reports is read as the list of their places and as the list of their
results, in every layout, and the layouts differ in blanks outside strings only (`squeeze_write`).
-/

namespace FilterClause

open Json (Tree Items Members MembersEnd ReadError Value Layout)
open Json (list_ofValue_map members_cons decodeText_write)

/-! ## Members that are passed over -/

namespace Json

/-- A written value holds no error that a reader could meet on its way over it. -/
theorem skipError?_ofValue (v : Value) : (Tree.ofValue v).skipError? = none := by
  induction v using Value.induction with
  | number n => rw [Tree.ofValue]; rfl
  | string t => rw [Tree.ofValue]; rfl
  | array vs ih =>
    rw [Tree.ofValue, Tree.skipError?]
    induction vs with
    | nil => rfl
    | cons v vs ihs =>
      obtain ⟨hv, hvs⟩ := List.forall_mem_cons.mp ih
      rw [Items.ofValues, Items.skipError?, hv, ihs hvs]
      rfl
  | object ms ih =>
    rw [Tree.ofValue, Tree.skipError?]
    induction ms with
    | nil => rfl
    | cons m ms ihs =>
      obtain ⟨hm, hms⟩ := List.forall_mem_cons.mp ih
      rw [Members.ofValues, Members.skipError?, hm, ihs hms]
      rfl

theorem skip_ofValue (v : Value) : skip (.ofValue v) = .ok () := by
  rw [skip, skipError?_ofValue]
  rfl

variable {σ : Type} {step : σ → Text → Tree → Except ReadError σ} {s : σ}

/-- Members that leave the state alone are passed over. -/
theorem members_append_of_passed {ms : List (Text × Value)}
    (h : ∀ m ∈ ms, step s m.1 (.ofValue m.2) = .ok s) (rest : List (Text × Value)) :
    members step s (.ofValues (ms ++ rest)) = members step s (.ofValues rest) := by
  induction ms with
  | nil => rfl
  | cons m ms ih =>
    obtain ⟨hm, hms⟩ := List.forall_mem_cons.mp h
    rw [List.cons_append, Members.ofValues, members, ok_bind, hm, ok_bind, ih hms]

end Json

open Json (skip_ofValue members_append_of_passed)

/-! ## Places -/

namespace Wire

/-- The members of a place as JSON. -/
def placeMembers (l : Located) : List (Text × Value) :=
  [textMember "source" l.source, ("line".toList, .number l.line), textMember "input" l.clause]

/-- The fields of a place that have been read. -/
structure PlaceFields where
  source : Option Text
  line : Option UInt64
  input : Option Text

/-- Reads one member of a place. -/
def placeMember (p : PlaceFields) (key : Text) (value : Tree) : Except ReadError PlaceFields :=
  if key = "source".toList then do
    return { p with source := ← Json.fieldOnce key p.source Json.string value }
  else if key = "line".toList then do
    return { p with line := ← Json.fieldOnce key p.line Json.count value }
  else if key = "input".toList then do
    return { p with input := ← Json.fieldOnce key p.input Json.string value }
  else (Json.skip value).map fun _ => p

/-- Reads a place from an object; all other members are passed over. -/
def place : Json.Decoder Located
  | .object ms => do
    let p ← Json.members placeMember ⟨none, none, none⟩ ms
    return ⟨← Json.required "source".toList p.source,
      (← Json.required "line".toList p.line).toNat, ← Json.required "input".toList p.input⟩
  | t => .error (t.mismatch (.record "ClauseReport".toList))

/-- The keys that belong to a result. -/
def resultKeys : List Text :=
  ["clause", "whereClause", "limit", "columns", "selectList", "issues"].map String.toList

theorem key_mem_resultKeys {r : Result} {m : Text × Value} (h : m ∈ resultMembers r) :
    m.1 ∈ resultKeys := by
  have hmember {α : Type} {name : String} {value : α → Value} {o : Option α}
      (hm : m ∈ memberOf name value o) : m.1 = name.toList := by
    cases o with
    | none => exact absurd hm (List.not_mem_nil)
    | some a => rw [List.mem_singleton.mp hm]
  simp only [resultMembers, List.mem_append] at h
  rcases h with (((h | h) | h) | h) | h
  · simp only [List.mem_cons, List.not_mem_nil, or_false] at h
    rcases h with rfl | rfl
    · exact List.mem_cons_self
    · exact List.mem_cons_of_mem _ List.mem_cons_self
  · rw [hmember h]; decide
  · rw [hmember h]; decide
  · rw [hmember h]; decide
  · rw [hmember h]; decide

/-- The members of a result do not belong to a place. -/
theorem placeMember_of_resultKey {key : Text} (h : key ∈ resultKeys) (p : PlaceFields) (v : Value) :
    placeMember p key (.ofValue v) = .ok p := by
  have hkey : key ≠ "source".toList ∧ key ≠ "line".toList ∧ key ≠ "input".toList := by
    revert key
    decide
  rw [placeMember, if_neg hkey.1, if_neg hkey.2.1, if_neg hkey.2.2, skip_ofValue]
  rfl

/-- The members of a place do not belong to a result. -/
theorem resultMember_of_mem_placeMembers {l : Located} {m : Text × Value}
    (h : m ∈ placeMembers l) (r : ResultFields) :
    resultMember r m.1 (.ofValue m.2) = .ok r := by
  have hkey : m.1 ∉ resultKeys := by
    simp only [placeMembers, List.mem_cons, List.not_mem_nil, or_false] at h
    rcases h with rfl | rfl | rfl
    · exact (by decide : "source".toList ∉ resultKeys)
    · exact (by decide : "line".toList ∉ resultKeys)
    · exact (by decide : "input".toList ∉ resultKeys)
  simp only [resultKeys, List.map_cons, List.map_nil, List.mem_cons, List.not_mem_nil, or_false,
    not_or] at hkey
  obtain ⟨hclause, hwhere, hlimit, hcolumns, hselect, hissues⟩ := hkey
  rw [resultMember, if_neg hclause, if_neg hwhere, if_neg hlimit, if_neg hcolumns, if_neg hselect,
    if_neg hissues, skip_ofValue]
  rfl

end Wire

/-! ## Reports -/

namespace Report

open Wire

theorem toValue_eq (r : Report) :
    r.toValue = .object (placeMembers r.origin ++ resultMembers r.result) :=
  rfl

/-- The place of a report is read from its tree, its line number being a word of 64 bits. -/
theorem place_toValue {r : Report} (h : r.origin.line < UInt64.size) :
    place (.ofValue r.toValue) = .ok r.origin := by
  obtain ⟨⟨source, line, clause⟩, result⟩ := r
  obtain ⟨n, rfl⟩ : ∃ n : UInt64, line = n.toNat := ⟨.ofNatLT line h, UInt64.toNat_ofNatLT.symm⟩
  have hmembers : Json.members placeMember ⟨none, none, none⟩
      (.ofValues (placeMembers ⟨source, n.toNat, clause⟩ ++ resultMembers result)) =
        .ok ⟨some source, some n, some clause⟩ := by
    simp only [placeMembers, List.cons_append, List.nil_append]
    refine (members_cons (σ := PlaceFields) (fun o => ⟨o, none, none⟩) (fun _ => rfl)
      (string_ofValue source) _).trans ?_
    refine (members_cons (σ := PlaceFields) (fun o => ⟨some source, o, none⟩) (fun _ => rfl)
      (count_ofValue n) _).trans ?_
    refine (members_cons (σ := PlaceFields) (fun o => ⟨some source, some n, o⟩) (fun _ => rfl)
      (string_ofValue clause) _).trans ?_
    rw [← List.append_nil (resultMembers result)]
    exact members_append_of_passed
      (fun m hm => placeMember_of_resultKey (key_mem_resultKeys hm) _ m.2) []
  rw [toValue_eq, Tree.ofValue, place, hmembers]
  rfl

/-- The result of a report is read from its tree as from a tree of its own. -/
theorem result_toValue (r : Report) : Wire.result (.ofValue r.toValue) = .ok r.result := by
  have hpassed := members_append_of_passed (s := ⟨none, none, none, none, none, none⟩)
    (fun m hm => resultMember_of_mem_placeMembers (l := r.origin) hm _) (resultMembers r.result)
  have hown := result_ofResult r.result
  rw [ofResult, Tree.ofValue, Wire.result] at hown
  rw [toValue_eq, Tree.ofValue, Wire.result, hpassed]
  exact hown

/-- Both layouts of a list of reports are texts of one JSON array, which lose nothing: they differ
in blanks outside strings only, and the elements of the array are read as the places and as the
results of the reports, one after the other. -/
theorem json_readBack (reports : List Report) (hline : ∀ r ∈ reports, r.origin.line < UInt64.size) :
    Json.squeeze (json .indented reports) = json .compact reports ∧
    ∀ layout ∈ [Layout.compact, Layout.indented],
      Json.IsJson (json layout reports) ∧
      Tree.ofText (json layout reports) = (.ofValue (.array (reports.map toValue)), []) ∧
      Json.decodeText (Json.list place) (json layout reports) = .ok (reports.map origin) ∧
      Json.decodeText (Json.list Wire.result) (json layout reports) =
        .ok (reports.map Report.result) := by
  refine ⟨Json.squeeze_write Layout.indented_spaced _, fun layout hlayout => ?_⟩
  have hspaced : layout.Spaced := by
    simp only [List.mem_cons, List.not_mem_nil, or_false] at hlayout
    rcases hlayout with rfl | rfl
    · exact Layout.compact_spaced
    · exact Layout.indented_spaced
  refine ⟨Json.isJson_write hspaced _, Json.ofText_write hspaced _, ?_, ?_⟩
  · rw [json, decodeText_write hspaced]
    exact list_ofValue_map fun r hr => place_toValue (hline r hr)
  · rw [json, decodeText_write hspaced]
    exact list_ofValue_map fun r _ => result_toValue r

/-- Reports whose texts hold the signs of JSON itself, on the first and on the last line that a
word can count. -/
def quotedReports : List Report :=
  [⟨⟨"a\n b.txt".toList, 1, "WHERE [a] = \" \\\", \"".toList⟩,
      ⟨"[a] = \" \\\", \"".toList, "WHERE [a] = \" \\\", \"".toList, some 0, [],
        some "x ,\ty".toList, [⟨.warning, "W".toList, " : \x7b [ ".toList⟩]⟩⟩,
    ⟨⟨"stdin".toList, UInt64.size - 1, []⟩, ⟨[], [], none, ["a, b".toList], none, []⟩⟩]

theorem json_readBack_quotedReports :
    (∀ r ∈ quotedReports, r.origin.line < UInt64.size) ∧
    Json.squeeze (json .indented quotedReports) = json .compact quotedReports ∧
    ∀ layout ∈ [Layout.compact, Layout.indented],
      Json.IsJson (json layout quotedReports) ∧
      Tree.ofText (json layout quotedReports) =
        (.ofValue (.array (quotedReports.map toValue)), []) ∧
      Json.decodeText (Json.list place) (json layout quotedReports) =
        .ok (quotedReports.map origin) ∧
      Json.decodeText (Json.list Wire.result) (json layout quotedReports) =
        .ok (quotedReports.map Report.result) :=
  have hline : ∀ r ∈ quotedReports, r.origin.line < UInt64.size := by decide
  ⟨hline, json_readBack quotedReports hline⟩

end Report

end FilterClause
