import FilterClause.Wire
import FilterClause.Proofs.JsonGrammar

/-!
# Requests and results are read back

A value that was written is decoded from the tree of its text (`decodeText_write`), so what is left
to show is that each decoder undoes the encoder on trees. A field that is left out keeps the value
that stands for nothing, and that is the value it was left out for (`members_memberOf`,
`nonempty`). With that a text is cleaned into a JSON text that denotes a result in every case.
-/

namespace FilterClause

open Json (Tree Items Members Decoder ReadError Value)

/-! ## Lists and members -/

namespace Json

variable {α σ : Type} {decode : Decoder α} {value : α → Value}

theorem list_ofValue_map {β : Type} {value : β → Value} {f : β → α} {l : List β}
    (h : ∀ b ∈ l, decode (.ofValue (value b)) = .ok (f b)) :
    list decode (.ofValue (.array (l.map value))) = .ok (l.map f) := by
  rw [Tree.ofValue, list]
  induction l with
  | nil => rfl
  | cons b l ih =>
    obtain ⟨hb, hl⟩ := List.forall_mem_cons.mp h
    rw [List.map_cons, Items.ofValues, items, hb, ih hl]
    rfl

theorem list_ofValue (h : ∀ a, decode (.ofValue (value a)) = .ok a) (l : List α) :
    list decode (.ofValue (.array (l.map value))) = .ok l := by
  rw [list_ofValue_map (f := id) fun a _ => h a, List.map_id]

/-- No written value is null. -/
theorem nullable_ofValue {v : Value} {a : α} (h : decode (.ofValue v) = .ok a) :
    nullable decode (.ofValue v) = .ok (some a) := by
  have hmap : nullable decode (.ofValue v) = (decode (.ofValue v)).map some := by
    cases v <;> rw [Tree.ofValue] <;> rfl
  rw [hmap, h, map_ok]

variable {step : σ → Text → Tree → Except ReadError σ}

/-- A member that sets a field which has not been read before. -/
theorem members_cons (set : Option α → σ) {name : Text}
    (hstep : ∀ t, step (set none) name t = do return set (← fieldOnce name none decode t))
    {v : Value} {a : α} (h : decode (.ofValue v) = .ok a) (ms : List (Text × Value)) :
    members step (set none) (.ofValues ((name, v) :: ms)) =
      members step (set (some a)) (.ofValues ms) := by
  rw [Members.ofValues, members, ok_bind, hstep, fieldOnce, h]
  rfl

/-- A member that may be left out sets its field if it is there. -/
theorem members_memberOf {β : Type} {value : β → Value} {read : β → α} (set : Option α → σ)
    {name : String}
    (hstep : ∀ t, step (set none) name.toList t =
      do return set (← fieldOnce name.toList none decode t))
    (h : ∀ b, decode (.ofValue (value b)) = .ok (read b)) (o : Option β)
    (ms : List (Text × Value)) :
    members step (set none) (.ofValues (Wire.memberOf name value o ++ ms)) =
      members step (set (o.map read)) (.ofValues ms) := by
  cases o with
  | none => rfl
  | some b => exact members_cons set hstep (h b) ms

end Json

open Json (nullable_ofValue list_ofValue members_cons members_memberOf)

/-! ## Decoders undo encoders -/

namespace Wire

theorem string_ofValue (t : Text) : Json.string (.ofValue (.string t)) = .ok t := by
  rw [Tree.ofValue]
  rfl

theorem strings_texts (ts : List Text) : strings (.ofValue (texts ts)) = .ok ts :=
  list_ofValue string_ofValue ts

theorem count_ofValue (n : UInt64) : Json.count (.ofValue (.number n.toNat)) = .ok n := by
  rw [Tree.ofValue, Json.count, Json.value?_ofNat n.toNat_lt]
  exact (dif_pos n.toNat_lt).trans (by simp)

theorem severity_text (s : Severity) : severity (.ofValue (.string s.text)) = .ok s := by
  rw [Tree.ofValue, severity, Json.variant]
  simp [bind, Except.bind]

theorem options_ofOptions (o : Options) : options (.ofValue (ofOptions o)) = .ok o := by
  rw [ofOptions, Tree.ofValue, options,
    members_cons (fun o => o) (fun _ => (if_pos rfl).trans (bind_pure _).symm)
      (strings_texts o.dateFields)]
  rfl

/-- The members of a request set its fields one after the other. -/
theorem members_ofRequest (r : Request) :
    Json.members requestMember ⟨none, none, none⟩
      (.ofValues (textMember "clause" r.clause :: memberOf "columns" texts r.columns ++
        memberOf "options" ofOptions r.options)) =
      .ok ⟨some r.clause, r.columns.map some, r.options.map some⟩ := by
  rw [← List.append_nil (memberOf "options" _ _)]
  refine (members_cons (σ := RequestFields) (fun o => ⟨o, none, none⟩) (fun _ => rfl)
    (string_ofValue r.clause) _).trans ?_
  refine (members_memberOf (σ := RequestFields) (fun o => ⟨some r.clause, o, none⟩) (fun _ => rfl)
    (fun ts => nullable_ofValue (strings_texts ts)) r.columns _).trans ?_
  exact members_memberOf (σ := RequestFields) (fun o => ⟨some r.clause, r.columns.map some, o⟩)
    (fun _ => rfl) (fun o => nullable_ofValue (options_ofOptions o)) r.options []

theorem join_map_some {α : Type} (o : Option α) : (o.map some).join = o := by
  cases o <;> rfl

/-- A request is read back from its tree. -/
theorem request_ofRequest (r : Request) : request (.ofValue (ofRequest r)) = .ok r := by
  rw [ofRequest, Tree.ofValue, request, members_ofRequest]
  simp only [Json.ok_bind, join_map_some]
  rfl

/-- An issue is read back from its tree. -/
theorem issue_ofIssue (i : Issue) : issue (.ofValue (ofIssue i)) = .ok i := by
  have hmembers : Json.members issueMember ⟨none, none, none⟩
      (.ofValues [textMember "severity" i.severity.text, textMember "code" i.code,
        textMember "message" i.message]) = .ok ⟨some i.severity, some i.code, some i.message⟩ := by
    refine (members_cons (σ := IssueFields) (fun o => ⟨o, none, none⟩) (fun _ => rfl)
      (severity_text i.severity) _).trans ?_
    refine (members_cons (σ := IssueFields) (fun o => ⟨some i.severity, o, none⟩) (fun _ => rfl)
      (string_ofValue i.code) _).trans ?_
    exact members_cons (σ := IssueFields) (fun o => ⟨some i.severity, some i.code, o⟩)
      (fun _ => rfl) (string_ofValue i.message) []
  rw [ofIssue, Tree.ofValue, issue, hmembers]
  rfl

theorem nonempty_getD {α : Type} (l : List α) : (nonempty l).getD [] = l := by
  cases l <;> rfl

/-- The members of a result set its fields one after the other. -/
theorem members_resultMembers (r : Result) :
    Json.members resultMember ⟨none, none, none, none, none, none⟩ (.ofValues (resultMembers r)) =
      .ok ⟨some r.clause, some r.whereClause, r.limit.map some, nonempty r.columns,
        r.selectList.map some, nonempty r.issues⟩ := by
  rw [resultMembers, ← List.append_nil (memberOf "issues" _ _)]
  simp only [List.append_assoc, List.cons_append, List.nil_append]
  refine (members_cons (σ := ResultFields) (fun o => ⟨o, none, none, none, none, none⟩)
    (fun _ => rfl) (string_ofValue r.clause) _).trans ?_
  refine (members_cons (σ := ResultFields) (fun o => ⟨some r.clause, o, none, none, none, none⟩)
    (fun _ => rfl) (string_ofValue r.whereClause) _).trans ?_
  refine (members_memberOf (σ := ResultFields)
    (fun o => ⟨some r.clause, some r.whereClause, o, none, none, none⟩) (fun _ => rfl)
    (fun n => nullable_ofValue (count_ofValue n)) r.limit _).trans ?_
  refine (members_memberOf (σ := ResultFields)
    (fun o => ⟨some r.clause, some r.whereClause, r.limit.map some, o, none, none⟩) (fun _ => rfl)
    strings_texts (nonempty r.columns) _).trans ?_
  refine (members_memberOf (σ := ResultFields)
    (fun o => ⟨some r.clause, some r.whereClause, r.limit.map some, _, o, none⟩)
    (fun _ => rfl) (fun t => nullable_ofValue (string_ofValue t)) r.selectList _).trans ?_
  refine (members_memberOf (σ := ResultFields)
    (fun o => ⟨some r.clause, some r.whereClause, r.limit.map some, _,
      r.selectList.map some, o⟩) (fun _ => rfl) (list_ofValue issue_ofIssue)
    (nonempty r.issues) []).trans ?_
  rw [Option.map_id', Option.map_id']
  rfl

/-- A result is read back from its tree. -/
theorem result_ofResult (r : Result) : result (.ofValue (ofResult r)) = .ok r := by
  rw [ofResult, Tree.ofValue, result, members_resultMembers]
  simp only [Json.ok_bind, join_map_some, nonempty_getD, Json.required]
  rfl

end Wire

/-! ## Texts -/

theorem Request.ofJson_toJson (r : Request) : ofJson r.toJson = .ok r := by
  rw [ofJson, toJson, Json.decodeText_write Json.Layout.compact_spaced, Wire.request_ofRequest]

theorem Result.ofJson_toJson (r : Result) : ofJson r.toJson = .ok r := by
  rw [ofJson, toJson, Json.decodeText_write Json.Layout.compact_spaced, Wire.result_ofResult]

/-- Requests and results are read back from their JSON texts, whatever they hold and whichever
fields are left out, and what was read back has the same text. -/
theorem Wire.roundTrip :
    (∀ r : Request, Json.IsJson r.toJson ∧ Request.ofJson r.toJson = .ok r ∧
      (Request.ofJson r.toJson).map Request.toJson = .ok r.toJson) ∧
    ∀ r : Result, Json.IsJson r.toJson ∧ Result.ofJson r.toJson = .ok r ∧
      (Result.ofJson r.toJson).map Result.toJson = .ok r.toJson := by
  constructor
  · intro r
    refine ⟨Json.isJson_write Json.Layout.compact_spaced _, r.ofJson_toJson, ?_⟩
    rw [r.ofJson_toJson, Json.map_ok]
  · intro r
    refine ⟨Json.isJson_write Json.Layout.compact_spaced _, r.ofJson_toJson, ?_⟩
    rw [r.ofJson_toJson, Json.map_ok]

/-- Every text is answered by a JSON text that denotes a result: that of the request if the text
denotes one, and otherwise a result with one error and nothing else. -/
theorem cleanJson_answers (t : Text) :
    Json.IsJson (cleanJson t) ∧ ∃ result, Result.ofJson (cleanJson t) = .ok result ∧
      match Request.ofJson t with
      | .ok r => result = clean r
      | .error _ => ∃ message, result =
          ⟨[], [], none, [], none, [⟨.error, "REQUEST_PARSE_ERROR".toList, message⟩]⟩ := by
  unfold cleanJson
  refine ⟨Json.isJson_write Json.Layout.compact_spaced _, _, Result.ofJson_toJson _, ?_⟩
  cases Request.ofJson t with
  | ok r => rfl
  | error e => exact ⟨_, rfl⟩

end FilterClause
