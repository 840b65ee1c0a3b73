import FieldReplica.Proofs.Scalars
import FieldReplica.Toml.Document

/-!
# Lines written and read

A line with a name and a scalar is read as one more member of the table that the last header named. A document whose
members and tables have different names is read line by line, and its tables hold what the lines say.
-/
namespace FieldReplica.Toml

/-! ### Tables -/

section Alter

variable {k k' : Key} {ms : Members} {v : Value} {f : Option Value → Except Conflict Value}

private theorem alter_of_fresh (h : ∀ m ∈ ms, m.1.name ≠ k.name) (hf : f none = .ok v) : alter k f ms = .ok
    (ms ++ [(k,v)]) := by
  induction ms with
  | nil =>
    rw [alter,hf]
    rfl
  | cons m ms ih =>
    rw [alter,if_neg (h m List.mem_cons_self),ih fun m' hm => h m' (List.mem_cons_of_mem _ hm)]
    rfl

private theorem alter_of_last {w : Value} (h : ∀ m ∈ ms, m.1.name ≠ k.name) (hk : k'.name = k.name)
    (hf : f (some v) = .ok w) : alter k f (ms ++ [(k',v)]) = .ok (ms ++ [(k',w)]) := by
  induction ms with
  | nil =>
    rw [List.nil_append,alter,if_pos hk,hf]
    rfl
  | cons m ms ih =>
    rw [List.cons_append,alter,if_neg (h m List.mem_cons_self),ih fun m' hm => h m' (List.mem_cons_of_mem _ hm)]
    rfl

end Alter

namespace Draft

variable {k : Key} {v : Value} {root : Members}

private theorem assign_of_fresh (h : ∀ m ∈ root, m.1.name ≠ k.name) (table : Option (List String)) (kind : TableKind)
    (span : Option Span) : assign table [k] v kind span root = .ok (.table kind span (root ++ [(k,v)])) := by
  change insertLeaf table [] k v kind span root = _
  rw [insertLeaf,if_neg (by simp)]
  exact congrArg (· >>= _) (alter_of_fresh h rfl)

/-- A member of the document itself. -/
theorem member_root (h : ∀ m ∈ root, m.1.name ≠ k.name) :
    (⟨root,[]⟩ : Draft).member [k] v = .ok ⟨root ++ [(k,v)],[]⟩ :=
  congrArg (fun e => Draft.change _ [] (e >>= _)) (assign_of_fresh h _ _ _)

private theorem header_fresh (h : ∀ m ∈ root, m.1.name ≠ k.name) (current : List Key) (span : Span) :
    (⟨root,current⟩ : Draft).header [k] span = .ok ⟨root ++ [(k,.table .header (some span) [])],[k]⟩ :=
  congrArg (fun e => Draft.change _ [k] (e >>= _)) (alter_of_fresh h rfl)

/-- A member of the table under the last header. -/
theorem member_table {table : Key} {span : Option Span} {members : Members}
    (hroot : ∀ m ∈ root, m.1.name ≠ table.name) (h : ∀ m ∈ members, m.1.name ≠ k.name) :
    (⟨root ++ [(table,.table .header span members)],[table]⟩ : Draft).member [k] v =
      .ok ⟨root ++ [(table,.table .header (stretch span v) (members ++ [(k,v)]))],[table]⟩ := by
  have hinner := assign_of_fresh (v := v) h (some [table.name]) .header span
  exact congrArg (fun e => Draft.change _ [table] (e >>= _)) (alter_of_last hroot rfl (bind_of_ok hinner))

end Draft

/-! ### Lines -/

private theorem skipBlanks_of_head {c : Char} (h : isBlank c = false) (cs : List Char) : skipBlanks (c::cs) = c::cs :=
  List.dropWhile_cons_of_neg (by simp [h])

private theorem simpleKey_bare {name : String} (hne : name.toList ≠ []) (hbare : ∀ c ∈ name.toList, isBareChar c = true)
    {c : Char} (hc : isBareChar c = false) (cs : List Char) :
    simpleKey (name.toList ++ c::cs) = .ok (name,c::cs) := by
  have hstop : ¬isBareChar c = true := by simp [hc]
  have htake : (name.toList ++ c::cs).takeWhile isBareChar = name.toList := by
    rw [List.takeWhile_append_of_pos hbare,List.takeWhile_cons_of_neg hstop,List.append_nil]
  have hdrop : (name.toList ++ c::cs).dropWhile isBareChar = c::cs := by
    rw [List.dropWhile_append_of_pos hbare,List.dropWhile_cons_of_neg hstop]
  obtain ⟨d,ds,hname⟩ := List.exists_cons_of_ne_nil hne
  have hd : isBareChar d = true := hbare d (by rw [hname]; exact List.mem_cons_self)
  have hofList := String.ofList_toList (s := name)
  rw [hname] at htake hdrop hofList ⊢
  rw [List.cons_append] at htake hdrop ⊢
  unfold simpleKey
  split
  · next h =>
    obtain rfl := (List.cons.inj h).1
    cases hd
  · next h =>
    obtain rfl := (List.cons.inj h).1
    cases hd
  · rw [htake,hdrop]
    exact congrArg (fun s => Except.ok (s,c::cs)) hofList

/-- A name without quotes is a key of one part, after which blanks do not count. -/
theorem key_bare {name : String} (hne : name.toList ≠ []) (hbare : ∀ c ∈ name.toList, isBareChar c = true) {c : Char}
    {cs t : List Char} (hc : isBareChar c = false) (ht : skipBlanks (c::cs) = t) (hdot : ∀ u, t ≠ '.'::u) :
    ∃ k : Key, k.name = name ∧ key (name.toList ++ c::cs) = .ok ([k],t) := by
  have hstart : skipBlanks (name.toList ++ c::cs) = name.toList ++ c::cs := by
    obtain ⟨d,ds,hname⟩ := List.exists_cons_of_ne_nil hne
    have hd : isBareChar d = true := hbare d (by rw [hname]; exact List.mem_cons_self)
    rw [hname]
    refine skipBlanks_of_head (Bool.eq_false_iff.mpr fun hblank => ?_) _
    simp only [isBlank,Bool.or_eq_true,decide_eq_true_eq] at hblank
    rcases hblank with rfl | rfl <;> cases hd
  have hspanned : simpleKey.spanned (name.toList ++ c::cs) =
      .ok ((⟨(name.toList ++ c::cs).length,(c::cs).length⟩,name),c::cs) :=
    bind_of_ok (simpleKey_bare hne hbare hc cs)
  refine ⟨⟨name,⟨(name.toList ++ c::cs).length,(c::cs).length⟩⟩,rfl,Reader.reading_ok ?_ _⟩
  rw [keyParts,hstart]
  refine (bind_of_ok hspanned).trans ?_
  dsimp only
  rw [ht]
  split
  · next u => exact absurd rfl (hdot u)
  · rfl

/-- The first character of a scalar tells it from a list and from a table. -/
theorem value_of_scalar {s : Scalar} {cs rest : List Char} (h : scalar cs = .ok (s,rest)) (depth : Nat) :
    ∃ span, value depth cs = .ok (.scalar span s,rest) := by
  refine ⟨⟨cs.length,rest.length⟩,?_⟩
  unfold value
  split
  · cases h
  · cases h
  · rw [Reader.spanned,h]
    rfl

private theorem skipBlanks_of_scalar {s : Scalar} {cs rest : List Char} (h : scalar cs = .ok (s,rest)) :
    skipBlanks cs = cs := by
  cases cs with
  | nil => rfl
  | cons c cs =>
    refine skipBlanks_of_head (Bool.eq_false_iff.mpr fun hblank => ?_) _
    simp only [isBlank,Bool.or_eq_true,decide_eq_true_eq] at hblank
    rcases hblank with rfl | rfl <;> cases h

/-- A line with a name and a scalar, and how the scalar is written. -/
structure Entry where
  name : String
  text : List Char
  scalar : Scalar

namespace Entry

/-- The name needs no quotes, and the text stands for the scalar. -/
structure Readable (e : Entry) : Prop where
  name_ne : e.name.toList ≠ []
  bare : ∀ c ∈ e.name.toList, isBareChar c = true
  read : ∀ rest, Toml.scalar (e.text ++ '\n'::rest) = .ok (e.scalar,'\n'::rest)

def line (e : Entry) : List Char := e.name.toList ++ " = ".toList ++ e.text ++ "\n".toList

/-- A member of a table as a line puts it there. -/
def Makes (e : Entry) (m : Key × Value) : Prop := m.1.name = e.name ∧ ∃ span, m.2 = .scalar span e.scalar

variable {e : Entry}

theorem line_append (rest : List Char) :
    e.line ++ rest = e.name.toList ++ ' ' :: '=' :: ' '::(e.text ++ '\n'::rest) := by
  simp [line]

private theorem member_line (h : e.Readable) (rest : List Char) :
    ∃ k v, e.Makes (k,v) ∧ Toml.member (e.line ++ rest) = .ok (([k],v),rest) := by
  obtain ⟨k,hk,hkey⟩ : ∃ k : Key, k.name = e.name ∧ key (e.name.toList ++ ' ' :: '=' :: ' '::(e.text ++ '\n'::rest)) =
      .ok ([k],'=' :: ' '::(e.text ++ '\n'::rest)) := key_bare h.name_ne h.bare rfl rfl nofun
  have hskip : skipBlanks (' '::(e.text ++ '\n'::rest)) = e.text ++ '\n'::rest :=
    (List.dropWhile_cons_of_pos rfl).trans (skipBlanks_of_scalar (h.read rest))
  obtain ⟨span,hvalue⟩ := value_of_scalar (h.read rest) maxDepth
  rw [← hskip] at hvalue
  have hequals : ((Reader.char '=').expecting ["\x60.\x60", "\x60=\x60"]) ('=' :: ' '::(e.text ++ '\n'::rest)) =
      .ok ((),' '::(e.text ++ '\n'::rest)) := rfl
  have htrailing : trailing ('\n'::rest) = .ok ((),rest) := rfl
  refine ⟨k,.scalar span e.scalar,⟨hk,span,rfl⟩,?_⟩
  rw [line_append]
  exact (bind_of_ok hkey).trans ((bind_of_ok hequals).trans ((bind_of_ok hvalue).trans (bind_of_ok htrailing)))

/-- A line is taken in as its member is. -/
theorem line_eq (h : e.Readable) (rest : List Char) : ∃ m, e.Makes m ∧ ∀ d d' : Draft, d.member [m.1] m.2 = .ok d' →
    Toml.line d (e.line ++ rest) = .ok (d',rest) := by
  obtain ⟨k,v,hmakes,hread⟩ := member_line h rest
  refine ⟨(k,v),hmakes,fun d d' hd => ?_⟩
  obtain ⟨c,cs,hname⟩ := List.exists_cons_of_ne_nil h.name_ne
  have hc : isBareChar c = true := h.bare c (by rw [hname]; exact List.mem_cons_self)
  have htake : (d.member [k] v).mapError (·.message) = .ok d' := by
    rw [hd]
    rfl
  rw [line_append,hname,List.cons_append] at hread ⊢
  unfold Toml.line
  split
  · next h =>
    obtain rfl := (List.cons.inj h).1
    cases hc
  · next h =>
    obtain rfl := (List.cons.inj h).1
    cases hc
  · exact Reader.refine_ok hread htake

/-- The members that lines put there. -/
structure MakeAll (es : List Entry) (ms : Members) : Prop where
  known : ∀ m ∈ ms, ∃ e ∈ es, e.Makes m
  made : ∀ e ∈ es, ∃ m ∈ ms, e.Makes m

theorem MakeAll.nil : MakeAll [] [] := ⟨nofun,nofun⟩

theorem MakeAll.cons {m : Key × Value} {es : List Entry} {ms : Members} (h : e.Makes m) (hs : MakeAll es ms) :
    MakeAll (e::es) (m::ms) where
  known m' hm := by
    rcases List.mem_cons.mp hm with rfl | hm
    · exact ⟨e,List.mem_cons_self,h⟩
    · exact (hs.known m' hm).imp fun _ he => ⟨List.mem_cons_of_mem _ he.1,he.2⟩
  made e' he := by
    rcases List.mem_cons.mp he with rfl | he
    · exact ⟨m,List.mem_cons_self,h⟩
    · exact (hs.made e' he).imp fun _ hm => ⟨List.mem_cons_of_mem _ hm.1,hm.2⟩

end Entry

def headerLine (name : String) : List Char := '['::(name.toList ++ "]\n".toList)

/-! ### Documents -/

/-- What a draft becomes by a text. -/
def Reads (d : Draft) (cs : List Char) (d' : Draft) : Prop := ∀ fuel, cs.length < fuel → lines fuel d cs = .ok d'

namespace Reads

variable {d d' : Draft} {rest : List Char}

theorem nil (d : Draft) : Reads d [] d := by
  rintro (_ | fuel) h
  · cases h
  · rfl

theorem newline (h : Reads d rest d') : Reads d ('\n'::rest) d' := by
  rintro (_ | fuel) hfuel
  · cases hfuel
  · exact h fuel (Nat.lt_of_succ_lt_succ hfuel)

/-- A line that begins with the first character of a name or with a bracket. -/
theorem line {d₁ : Draft} {c : Char} {cs : List Char} (hc : isBareChar c = true ∨ c = '[')
    (hline : Toml.line d (c::cs) = .ok (d₁,rest)) (hlength : rest.length ≤ cs.length) (h : Reads d₁ rest d') :
    Reads d (c::cs) d' := by
  rintro (_ | fuel) hfuel
  · cases hfuel
  · have hne : ∀ {b : Char}, isBareChar b = false → b ≠ '[' → c ≠ b := by
      rintro b hb hb' rfl
      rcases hc with hc | hc
      · rw [hb] at hc
        cases hc
      · exact hb' hc
    have hblank : isBlank c = false := by
      simp only [isBlank,Bool.or_eq_false_iff,decide_eq_false_iff_not]
      exact ⟨hne rfl (by decide),hne rfl (by decide)⟩
    have hfeed : c ≠ '\r' := hne rfl (by decide)
    have hline? := newline?_of_ne (hne (b := '\n') rfl (by decide)) hfeed cs
    have hrest := h fuel (Nat.lt_of_le_of_lt hlength (Nat.lt_of_succ_lt_succ hfuel))
    rw [lines,skipBlanks_of_head hblank]
    split
    · next h => cases h
    · next h => exact absurd (List.cons.inj h).1 (hne rfl (by decide))
    · rw [hline?]
      change (if (some c = some '\r') then _ else _) = _
      rw [if_neg fun h => hfeed (Option.some.inj h),hline]
      exact hrest

/-- Lines under different names are read where each of them can be put. -/
theorem entries (put : Option Span → Members → Draft)
    (hput : ∀ span members k v, (∀ m ∈ members, m.1.name ≠ k.name) →
      ∃ span', (put span members).member [k] v = .ok (put span' (members ++ [(k,v)])))
    {es : List Entry} (hread : ∀ e ∈ es, e.Readable) (members : Members)
    (hnames : (members.map (·.1.name) ++ es.map Entry.name).Nodup) (span : Option Span) (rest : List Char) :
    ∃ span' ms, Entry.MakeAll es ms ∧ ∀ d', Reads (put span' (members ++ ms)) rest d' →
      Reads (put span members) (es.flatMap Entry.line ++ rest) d' := by
  -- The members so far grow from line to line, and the names of the lines to come differ from theirs.
  induction es generalizing members span with
  | nil => exact ⟨span,[],.nil,fun d' h => by simpa using h⟩
  | cons e es ih =>
    have he := hread e List.mem_cons_self
    obtain ⟨m,hmakes,hline⟩ := e.line_eq he (es.flatMap Entry.line ++ rest)
    have hfresh : ∀ m' ∈ members, m'.1.name ≠ m.1.name := by
      rw [hmakes.1]
      intro m' hm
      exact (List.nodup_append.mp hnames).2.2 _ (List.mem_map_of_mem hm) _ List.mem_cons_self
    obtain ⟨span₁,hmember⟩ := hput span members m.1 m.2 hfresh
    have hnames' : ((members ++ [m]).map (·.1.name) ++ es.map Entry.name).Nodup := by
      simpa [hmakes.1] using hnames
    obtain ⟨span',ms,hall,hrest⟩ := ih (fun e' h' => hread e' (List.mem_cons_of_mem _ h')) _ hnames' span₁
    refine ⟨span',m::ms,.cons hmakes hall,fun d' h => ?_⟩
    obtain ⟨c,cs,hname⟩ := List.exists_cons_of_ne_nil he.name_ne
    have hc : isBareChar c = true := he.bare c (by rw [hname]; exact List.mem_cons_self)
    have hstep := hline _ _ hmember
    rw [List.flatMap_cons,List.append_assoc]
    rw [Entry.line_append,hname,List.cons_append] at hstep ⊢
    refine .line (.inl hc) hstep ?_ (hrest d' (by simpa using h))
    simp
    omega

/-- A header is read where its table can be put. -/
theorem header {table : String} (hne : table.toList ≠ []) (hbare : ∀ c ∈ table.toList, isBareChar c = true)
    (root : Members) (hfresh : ∀ m ∈ root, m.1.name ≠ table) (current : List Key) (rest : List Char) :
    ∃ k span, k.name = table ∧ ∀ d', Reads ⟨root ++ [(k,.table .header (some span) [])],[k]⟩ rest d' →
      Reads ⟨root,current⟩ (headerLine table ++ rest) d' := by
  obtain ⟨k,hk,hkey⟩ : ∃ k : Key, k.name = table ∧ key (table.toList ++ ']' :: '\n'::rest) =
      .ok ([k],']' :: '\n'::rest) := key_bare hne hbare rfl rfl nofun
  have hclose : ((Reader.word [']']).expecting ["\x60.\x60","\x60]\x60"]) (']' :: '\n'::rest) =
      .ok ((),'\n'::rest) := rfl
  have hbody : headerBody [']'] "\x60]\x60" (table.toList ++ ']' :: '\n'::rest) = .ok ([k],'\n'::rest) :=
    (bind_of_ok hkey).trans (bind_of_ok hclose)
  have htrailing : trailing ('\n'::rest) = .ok ((),rest) := rfl
  have htext : headerLine table ++ rest = '['::(table.toList ++ ']' :: '\n'::rest) := by simp [headerLine]
  let span : Span := ⟨('['::(table.toList ++ ']' :: '\n'::rest)).length,('\n'::rest).length⟩
  have htake : (⟨root,current⟩ : Draft).header [k] span = .ok ⟨root ++ [(k,.table .header (some span) [])],[k]⟩ :=
    Draft.header_fresh (hk ▸ hfresh) current span
  refine ⟨k,span,hk,fun d' h => ?_⟩
  rw [htext]
  refine .line (.inr rfl) ?_ (by simp; omega) h
  obtain ⟨c,cs,hname⟩ := List.exists_cons_of_ne_nil hne
  have hc : isBareChar c = true := hbare c (by rw [hname]; exact List.mem_cons_self)
  unfold Toml.line
  split
  · next h =>
    rw [hname] at h
    obtain rfl := (List.cons.inj (List.cons.inj h).2).1
    cases hc
  · next h =>
    obtain rfl := (List.cons.inj h).2
    refine Reader.reading_ok ((bind_of_ok hbody).trans ((bind_of_ok htrailing).trans ?_)) _
    dsimp only
    rw [htake]
    rfl
  · next h => exact absurd rfl (h _)

theorem newlines {d d' : Draft} {cs : List Char} (h : Reads d cs d') (n : Nat) :
    Reads d (List.replicate n '\n' ++ cs) d' := by
  induction n with
  | zero => exact h
  | succ n ih => exact ih.newline

/-- The whole text of a document. -/
theorem read {cs : List Char} {d : Draft} (h : Reads ⟨[],[]⟩ cs d) (hmark : cs.head? ≠ some '\uFEFF') :
    Toml.read cs = .ok d.root := by
  have htext : withoutMark cs = cs := by
    unfold withoutMark
    split
    · exact absurd rfl hmark
    · rfl
  rw [Toml.read,htext]
  exact bind_of_ok (h (cs.length + 1) (Nat.lt_succ_self _))

end Reads

end FieldReplica.Toml
