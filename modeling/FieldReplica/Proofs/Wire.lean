import FieldReplica.Proofs.Objects
import FieldReplica.Proofs.Offsets
import FieldReplica.Proofs.Rendering
import FieldReplica.Proofs.Values
import FieldReplica.Stream.Message

/-!
# The stream on the wire

Nothing on the wire says whether a message is a change or a control: it is tried as a change and then as a control.
Each is read as what it was, since a change has a key and a control has none. Positions are read as they were written
because offsets are.
-/
namespace FieldReplica

namespace Decoder

private theorem json_ofJson (o : Origin) (v : Json) : json o (.ofJson v) = .ok v.canonical := by
  rw [json,Doc.toJson?_ofJson]

private theorem reads_txid : Txid.decode.Reads Txid.toJson := by
  intro o t
  rw [Txid.decode,map,show Txid.toJson t = Entity.int64Json t.value from rfl,reads_int64]
  rfl

private theorem reads_handle : ShapeHandle.decode.Reads ShapeHandle.toJson := fun _ _ => rfl

private theorem reads_operation : (Named.decode (α := Operation)).Reads Named.toJson := by
  intro o a
  cases a <;> rfl

private theorem reads_offset : LogOffset.decode.Reads LogOffset.toJson := by
  intro o a
  rw [LogOffset.toJson,Doc.ofJson]
  simp only [LogOffset.decode,Decoder.bind,Decoder.string,Bind.bind,Except.bind,LogOffset.ofText?_toText]

private theorem reads_optional {α : Type} {read : Decoder α} {write : α → Json} (h : read.Reads write)
    (hnull : ∀ a, write a ≠ .null) : (optional read).Reads (Json.optional write) := by
  intro o a
  cases a with
  | none => rfl
  | some a =>
    have hread : optional read o (.ofJson (write a)) = (do return some (← read o (.ofJson (write a)))) := by
      cases hw : write a with
      | null => exact absurd hw (hnull a)
      | _ => rfl
    rw [Json.optional,hread,h o a]
    rfl

end Decoder

private theorem Column.read_of_ok {R α : Type} {name : String} {presence : Presence} {get : R → α} {set : α → R → R}
    {write : α → Json} {read : Decoder α} {o : Origin} {doc : Doc} {a : α} (h : read o doc = .ok a) :
    (Column.ofField name presence get set write read).read o doc = .ok (set a) := by
  simp only [ofField,Decoder.map,h]
  rfl

namespace Schema

variable {R : Type} {s : Schema R} {o : Origin}

/-- A member that is a column is read into the record. -/
theorem readMembers_cons {k : String} {doc : Doc} {c : Column R} {f : R → R} {seen : List String} (r : R)
    (hc : s.column? k = some c) (hk : k ∉ seen) (hf : c.read o doc = .ok f) (rest : List (Option String × Doc)) :
    s.readMembers o r seen ((some k,doc)::rest) = s.readMembers o (f r) (k::seen) rest := by
  simp only [readMembers,hc,if_neg hk,hf]
  rfl

/-- An object whose members make a record, and that has all that must be there, is read as that record. -/
theorem decode_of_readMembers {members : List (Option String × Doc)} {r : R} (seen : List String)
    (h : s.readMembers o s.blank [] members = .ok (r,seen)) (hseen : s.missing? seen = none) :
    s.decode o (.object false members true) = .ok r := by
  simp only [decode,h,Decoder.guard,Bind.bind,Except.bind,hseen]
  rfl

end Schema

variable {o : Origin}

namespace ChangeHeaders

theorem reads : schema.decode.Reads toJson := by
  intro o h
  obtain ⟨operation,txids⟩ := h
  have hoperation := fun (r : ChangeHeaders) (seen : List String) (hs : "operation" ∉ seen) =>
    Schema.readMembers_cons (s := schema) r rfl hs (Column.read_of_ok (Decoder.reads_operation o operation))
  rw [toJson]
  split
  · next hempty =>
    obtain rfl : txids = [] := hempty
    exact Schema.decode_of_readMembers ["operation"] (hoperation _ _ List.not_mem_nil []) rfl
  · refine Schema.decode_of_readMembers ["txids","operation"] ((hoperation _ _ List.not_mem_nil _).trans ?_) rfl
    exact Schema.readMembers_cons (s := schema) (k := "txids") _ rfl (by decide)
      (Column.read_of_ok (Decoder.reads_list Decoder.reads_txid o txids)) []

private theorem canonical_toJson (h : ChangeHeaders) : h.toJson.canonical = h.toJson := by
  have htxids : ∀ ts : List Txid, Json.canonicalItems (ts.map Txid.toJson) = ts.map Txid.toJson := by
    intro ts
    induction ts with
    | nil => rfl
    | cons t ts ih => rw [List.map_cons,Json.canonicalItems,ih]; rfl
  rw [toJson]
  split
  · rfl
  · have hencode : schema.encode h =
        .object [("operation",Named.toJson h.operation),("txids",.array (h.txids.map Txid.toJson))] := rfl
    have horder : compare "txids" "operation" = .gt := by decide
    simp [hencode,Json.canonical,Json.canonicalMembers,htxids,Json.mkObject,Json.sortMembers,Json.insertMember,horder]
    rfl

end ChangeHeaders

namespace ChangeMessage

variable {key : String} {value : Json} {headers : ChangeHeaders} {valueDoc headersDoc : Doc}

/-- The members of a change are read in the order in which they are written and in that of their keys. -/
theorem decode_members (hvalue : Decoder.json o valueDoc = .ok value)
    (hheaders : ChangeHeaders.schema.decode o headersDoc = .ok headers) {members : List (Option String × Doc)}
    (hmembers : members = [(some "key",.string (some key)),(some "value",valueDoc),(some "headers",headersDoc)] ∨
      members = [(some "headers",headersDoc),(some "key",.string (some key)),(some "value",valueDoc)]) :
    decode o (.object false members true) = .ok ⟨key,value,headers⟩ := by
  have hkey := fun (r : ChangeMessage) (seen : List String) (hs : "key" ∉ seen) =>
    Schema.readMembers_cons (s := schema) r rfl hs (Column.read_of_ok (Decoder.reads_string o key))
  have hvalue := fun (r : ChangeMessage) (seen : List String) (hs : "value" ∉ seen) =>
    Schema.readMembers_cons (s := schema) r rfl hs (Column.read_of_ok hvalue)
  have hheaders := fun (r : ChangeMessage) (seen : List String) (hs : "headers" ∉ seen) =>
    Schema.readMembers_cons (s := schema) r rfl hs (Column.read_of_ok hheaders)
  rcases hmembers with rfl | rfl
  · refine Schema.decode_of_readMembers ["headers","value","key"] ?_ rfl
    exact (hkey _ _ List.not_mem_nil _).trans ((hvalue _ _ (by decide) _).trans (hheaders _ _ (by decide) []))
  · refine Schema.decode_of_readMembers ["value","key","headers"] ?_ rfl
    exact (hheaders _ _ List.not_mem_nil _).trans ((hkey _ _ (by decide) _).trans (hvalue _ _ (by decide) []))

/-- The object of a change in the order of its keys. -/
theorem canonical_toJson (m : ChangeMessage) : m.toJson.canonical =
    .object [("headers",m.headers.toJson),("key",.string m.key),("value",m.value.canonical)] := by
  have hencode : m.toJson =
      .object [("key",.string m.key),("value",m.value),("headers",m.headers.toJson)] := rfl
  rw [hencode]
  have hvalue : compare "value" "key" = .gt := by decide
  have hheaders : compare "headers" "key" = .lt := by decide
  simp [Json.canonical,Json.canonicalMembers,ChangeHeaders.canonical_toJson,Json.mkObject,Json.sortMembers,
    Json.insertMember,hvalue,hheaders]

/-- The values that a change may be given as: its object as it is written, and as it is stored. -/
theorem decode_toJson (m : ChangeMessage) (hm : m.value.canonical = m.value) :
    decode o (.ofJson m.toJson) = .ok m ∧ decode o (.ofJson m.toJson.canonical) = .ok m := by
  have hvalue : Decoder.json o (.ofJson m.value) = .ok m.value := (Decoder.json_ofJson o m.value).trans (by rw [hm])
  rw [canonical_toJson,hm]
  exact ⟨decode_members hvalue (ChangeHeaders.reads o m.headers) (.inl rfl),
    decode_members hvalue (ChangeHeaders.reads o m.headers) (.inr rfl)⟩

end ChangeMessage

namespace Control

private theorem decode_toJson (c : Control) : decode o (.ofJson c.toJson) = .ok c := by
  cases c <;> rfl

/-- The object of a control has one member, so it is written in the order of its keys. -/
theorem canonical_toJson (c : Control) : c.toJson.canonical = c.toJson := by
  cases c <;> rfl

private theorem not_change (c : Control) : (ChangeMessage.decode o (.ofJson c.toJson)).toOption = none := by
  cases c <;> rfl

end Control

namespace ShapeMessage

private theorem decode_of_change {doc : Doc} {m : ChangeMessage} (hdoc : doc.toJson?.isSome)
    (h : ChangeMessage.decode .value doc = .ok m) : decode o doc = .ok (.change m) := by
  have hchange : ((ChangeMessage.decode.map ShapeMessage.change) .value doc).toOption = some (.change m) := by
    rw [Decoder.map,h]
    rfl
  rw [decode,Decoder.firstOf,if_pos hdoc,List.findSome?_cons,hchange]

private theorem decode_of_control {doc : Doc} {c : Control} (hdoc : doc.toJson?.isSome)
    (hchange : (ChangeMessage.decode .value doc).toOption = none) (h : Control.decode .value doc = .ok c) :
    decode o doc = .ok (.control c) := by
  have hno : ((ChangeMessage.decode.map ShapeMessage.change) .value doc).toOption = none := by
    rw [Decoder.map]
    revert hchange
    cases ChangeMessage.decode .value doc with
    | error e => exact fun _ => rfl
    | ok m => exact fun h => absurd h (by simp [Except.toOption])
  have hcontrol : ((Control.decode.map ShapeMessage.control) .value doc).toOption = some (.control c) := by
    rw [Decoder.map,h]
    rfl
  rw [decode,Decoder.firstOf,if_pos hdoc,List.findSome?_cons,hno,List.findSome?_cons,hcontrol]

/-- A message as it can be at hand: a value without a shape is kept with its members in order. -/
def Stored : ShapeMessage → Prop
  | .change m => m.value.canonical = m.value
  | .control _ => True

/-- A message is read as what it was, whether its members stand as they are written or in order. -/
theorem decode_toJson {m : ShapeMessage} (hm : m.Stored) :
    decode o (.ofJson m.toJson) = .ok m ∧ decode o (.ofJson m.toJson.canonical) = .ok m := by
  have hvalue : ∀ v : Json, (Doc.ofJson v).toJson?.isSome := fun v => by rw [Doc.toJson?_ofJson]; rfl
  cases m with
  | change m =>
    obtain ⟨hwritten,hstored⟩ := ChangeMessage.decode_toJson (o := .value) m hm
    exact ⟨decode_of_change (hvalue _) hwritten,decode_of_change (hvalue _) hstored⟩
  | control c =>
    have hwritten := decode_of_control (o := o) (hvalue _) c.not_change c.decode_toJson
    exact ⟨hwritten,by rw [toJson,c.canonical_toJson]; exact hwritten⟩

private theorem plain_txids (ts : List Txid) (levels : Nat) : Json.PlainItems (ts.map Txid.toJson) levels := by
  induction ts with
  | nil => trivial
  | cons t ts ih =>
    have hlow : -9223372036854775808 ≤ t.value.toInt := t.value.minValue_le_toInt
    have hhigh : t.value.toInt ≤ 9223372036854775807 := t.value.toInt_le
    exact ⟨⟨hlow,by omega⟩,ih⟩

/-- The headers of a message are three levels deep, within the message; its value may be deeper. -/
theorem plain_toJson {m : ShapeMessage} {levels : Nat} (hlevels : 2 ≤ levels)
    (hm : ∀ c, m = .change c → c.value.Plain levels) : m.toJson.Plain (levels + 1) := by
  cases m with
  | control c => cases c <;> exact ⟨by omega,⟨by omega,trivial,trivial⟩,trivial⟩
  | change m =>
    have hheaders : m.headers.toJson.Plain levels := by
      rw [ChangeHeaders.toJson]
      split
      · exact ⟨by omega,trivial,trivial⟩
      · exact ⟨by omega,trivial,⟨by omega,plain_txids _ _⟩,trivial⟩
    exact ⟨by omega,trivial,hm m rfl,hheaders,trivial⟩

end ShapeMessage

/-! ### Positions -/

namespace Position

/-- The members of a position are written in the order of their keys. -/
theorem canonical_toJson (p : Position) : p.toJson.canonical = p.toJson := by
  have horder : compare "offset" "handle" = .gt := by decide
  have hencode : p.toJson = .object [("handle",.string p.handle.name),("offset",.string p.offset.toText)] := rfl
  simp [hencode,Json.canonical,Json.canonicalMembers,Json.mkObject,Json.sortMembers,Json.insertMember,horder]

theorem reads : decode.Reads toJson := by
  intro o p
  have hhandle := Schema.readMembers_cons (s := schema) (o := o) (k := "handle") schema.blank rfl List.not_mem_nil
    (Column.read_of_ok (Decoder.reads_handle o p.handle))
  have hoffset : ∀ r, schema.readMembers o r ["handle"] [(some "offset",.ofJson p.offset.toJson)] =
      .ok ({ r with offset := p.offset },["offset","handle"]) := fun r =>
    Schema.readMembers_cons (s := schema) (k := "offset") r rfl (by simp)
      (Column.read_of_ok (Decoder.reads_offset o p.offset)) []
  exact Schema.decode_of_readMembers _ ((hhandle _).trans (hoffset _)) rfl

end Position

namespace Positions

private theorem canonical_toJson (p : Positions) : p.toJson.canonical = p.toJson := by
  have horder : compare "task_events" "entities" = .gt := by decide
  have hmember : ∀ q : Option Position, (Json.optional Position.toJson q).canonical = Json.optional Position.toJson q
    | .none => rfl
    | .some q => q.canonical_toJson
  have hencode : p.toJson = .object [("entities",Json.optional Position.toJson p.entities),
    ("task_events",Json.optional Position.toJson p.taskEvents)] := rfl
  simp [hencode,Json.canonical,Json.canonicalMembers,hmember,Json.mkObject,Json.sortMembers,Json.insertMember,horder]

theorem reads : decode.Reads toJson := by
  intro o p
  have hposition := Decoder.reads_optional Position.reads (fun _ => nofun)
  have hentities := Schema.readMembers_cons (s := schema) (o := o) (k := "entities") schema.blank rfl
    List.not_mem_nil (Column.read_of_ok (hposition o p.entities))
  have hevents : ∀ r, schema.readMembers o r ["entities"]
      [(some "task_events",.ofJson (Json.optional Position.toJson p.taskEvents))] =
      .ok ({ r with taskEvents := p.taskEvents },["task_events","entities"]) := fun r =>
    Schema.readMembers_cons (s := schema) (k := "task_events") r rfl (by simp)
      (Column.read_of_ok (hposition o p.taskEvents)) []
  exact Schema.decode_of_readMembers _ ((hentities _).trans (hevents _)) rfl

private theorem plain_toJson (p : Positions) : p.toJson.Plain 2 := by
  have hmember : ∀ q : Option Position, (Json.optional Position.toJson q).Plain 1
    | .none => trivial
    | .some q => ⟨by decide,trivial,trivial,trivial⟩
  exact ⟨by decide,hmember p.entities,hmember p.taskEvents,trivial⟩

end Positions
/-! ### Nothing is lost on the wire -/

/-- Every message is read as what it was, and in particular as a change or as a control, with its members as they are
written or in order; and from its text, if its value has no number but whole ones of 64 bits and leaves room for the
message around it. Every offset is what its text denotes, the texts of offsets are `-1` and two numbers with an
underscore between them, and offsets are ordered as they stand in the log. So a position is read as what it was, and
with it the positions of a project. -/
theorem ShapeMessage.wire_faithful :
    (∀ m : ShapeMessage, m.Stored →
      (∀ o, decode o (.ofJson m.toJson) = .ok m ∧ decode o (.ofJson m.toJson.canonical) = .ok m) ∧
      ((∀ c, m = .change c → c.value.Plain 126) → decode.ofText m.toJson.render = .ok m)) ∧
    (∀ a : LogOffset, LogOffset.ofText? a.toText = some a) ∧
    (∀ (s : String) (a : LogOffset), LogOffset.ofText? s = some a ↔ LogOffset.Written s.toList a) ∧
    (∀ a b : LogOffset, (compare a b = .lt ↔ a.place < b.place) ∧ (compare a b = .eq ↔ a = b)) ∧
    (∀ p : Position, (∀ o, Position.decode o (.ofJson p.toJson) = .ok p) ∧ p.toJson.canonical = p.toJson ∧
      Position.decode.ofText p.toJson.render = .ok p) ∧
    ∀ p : Positions, (∀ o, Positions.decode o (.ofJson p.toJson) = .ok p) ∧ p.toJson.canonical = p.toJson ∧
      Positions.decode.ofText p.toJson.render = .ok p := by
  refine ⟨?_,LogOffset.ofText?_toText,fun _ _ => LogOffset.ofText?_eq_some,
    fun _ _ => ⟨LogOffset.compare_eq_lt,LogOffset.compare_eq_eq⟩,?_,?_⟩
  · intro m hm
    refine ⟨fun o => decode_toJson hm,fun hplain => ?_⟩
    exact Decoder.ofText_render (plain_toJson (by decide) hplain) (decode_toJson hm).1
  · intro p
    have hplain : p.toJson.Plain Json.maxDepth := ⟨by decide,trivial,trivial,trivial⟩
    exact ⟨fun o => Position.reads o p,p.canonical_toJson,Decoder.ofText_render hplain (Position.reads .text p)⟩
  · intro p
    have hplain : p.toJson.Plain Json.maxDepth := p.plain_toJson.mono (by decide)
    exact ⟨fun o => Positions.reads o p,p.canonical_toJson,Decoder.ofText_render hplain (Positions.reads .text p)⟩

/-- A change of two transactions, whose value has a member of each kind. -/
def ShapeMessage.sample : ShapeMessage :=
  .change ⟨"E 1",.object [("a",.array [.null,.bool true,.int (-3)]),("b",.string "x\"y\n")],⟨.update,[⟨7⟩,⟨-1⟩]⟩⟩

theorem ShapeMessage.wire_faithful_sample :
    ShapeMessage.decode .value (.ofJson sample.toJson) = .ok sample ∧
    ShapeMessage.decode.ofText sample.toJson.render = .ok sample := by
  obtain ⟨hvalue,htext⟩ := wire_faithful.1 sample rfl
  refine ⟨(hvalue .value).1,htext fun c hc => ?_⟩
  obtain rfl := ShapeMessage.change.inj hc
  exact ⟨by decide,⟨by decide,trivial,trivial,⟨by decide,by decide⟩,trivial⟩,trivial,trivial⟩

end FieldReplica
