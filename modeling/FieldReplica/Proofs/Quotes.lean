import Mathlib.Data.List.TakeWhile
import FieldReplica.Toml.Quoted
import FieldReplica.Toml.Strings

/-!
# Strings written and read

Whatever a text holds, one of the four forms of a string holds the text: what is written for it is read as the text and
nothing more. Quotes inside a string of several lines stand in runs of at most two, so that with the closing ones there
are never more than five, and the first of them belong to the text.
-/
namespace FieldReplica.Toml

/-! ### Readers -/

theorem bind_of_ok {ε α β : Type} {e : Except ε α} {a : α} {f : α → Except ε β} (h : e = .ok a) : (e >>= f) = f a := by
  rw [h]
  rfl

namespace Reader

variable {α : Type} {r : Reader α} {cs : List Char} {x : α × List Char}

private theorem onTrouble_ok (h : r cs = .ok x) (f : Trouble → Trouble) : r.onTrouble f cs = .ok x := by
  rw [onTrouble,h]
  rfl

theorem reading_ok (h : r cs = .ok x) (what : String) : r.reading what cs = .ok x := onTrouble_ok h _

private theorem settled_ok (h : r cs = .ok x) : r.settled cs = .ok x := onTrouble_ok h _

theorem refine_ok {β : Type} {f : α → Except String β} {rest : List Char} {a : α} {b : β} (h : r cs = .ok (a,rest))
    (hf : f a = .ok b) : r.refine f cs = .ok (b,rest) := by
  refine (bind_of_ok h).trans ?_
  dsimp only
  rw [hf]
  rfl

end Reader

/-! ### Escapes -/

private theorem codePoint_hexDigit {m : Nat} (h : m < 128) (rest : List Char) :
    codePoint 4 ('0' :: '0' :: hexDigit (m / 16) :: hexDigit m :: rest) = .ok (Char.ofNat m,rest) := by
  have hdigits : ∀ m < 128, ['0','0',hexDigit (m / 16),hexDigit m].takeWhile (fun c => (Url.hexValue? c).isSome) =
      ['0','0',hexDigit (m / 16),hexDigit m] ∧ hexNumber ['0','0',hexDigit (m / 16),hexDigit m] = m := by
    decide
  rw [codePoint]
  simp only [List.take_succ_cons,List.take_zero,List.drop_succ_cons,List.drop_zero,(hdigits m h).1,(hdigits m h).2]
  exact (if_neg (Nat.lt_irrefl 4)).trans (if_pos (.inl (by omega)))

/-- An escape of a character, after its backslash. -/
structure Escapes (c : Char) (e : List Char) : Prop where
  read : ∀ rest, escaped (e ++ rest) = .ok (c,rest)
  /-- It is not the end of a line. -/
  head : ∀ rest, joinLines? (e ++ rest) = none
  ne : e ≠ []

private theorem Escapes.letter {c d : Char} (hread : ∀ rest, escaped (d::rest) = .ok (c,rest))
    (hblank : isBlank d = false)
    (hline : ∀ rest, newline? (d::rest) = none) : Escapes c [d] where
  read := hread
  head rest := by
    have hskip : skipBlanks (d::rest) = d::rest := List.dropWhile_cons_of_neg (by simp [hblank])
    rw [joinLines?,List.cons_append,List.nil_append,hskip,hline]
    rfl
  ne := List.cons_ne_nil _ _

theorem Escapes.number {c : Char} (h : c.toNat < 128) :
    Escapes c ['u','0','0',hexDigit (c.toNat / 16),hexDigit c.toNat] where
  read rest := by
    have hpoint := codePoint_hexDigit h rest
    rw [Char.ofNat_toNat] at hpoint
    exact Reader.reading_ok (Reader.settled_ok hpoint) _
  head _ := rfl
  ne := List.cons_ne_nil _ _

/-- What stands for a character that is no quote: an escape, the character, or a line feed of several lines. -/
theorem escapeChar_cases (lines : Bool) {c : Char} (hc : c ≠ '"') :
    (∃ e, escapeChar lines c = '\\'::e ∧ Escapes c e) ∨ (escapeChar lines c = [c] ∧ isPlain c = true) ∨
      (lines = true ∧ escapeChar lines c = [c] ∧ c = '\n') := by
  have hletter : ∀ {c d : Char}, (∀ rest, escaped (d::rest) = .ok (c,rest)) → isBlank d = false →
      (∀ rest, newline? (d::rest) = none) → Escapes c [d] := Escapes.letter
  rw [escapeChar]
  split
  · next h =>
    obtain rfl : c = Char.ofNat 8 := by rw [← h,Char.ofNat_toNat]
    exact .inl ⟨_,rfl,hletter (fun _ => rfl) rfl fun _ => rfl⟩
  · split
    · next h =>
      subst h
      exact .inl ⟨_,rfl,hletter (fun _ => rfl) rfl fun _ => rfl⟩
    · split
      · next h =>
        subst h
        cases lines with
        | true => exact .inr (.inr ⟨rfl,rfl,rfl⟩)
        | false => exact .inl ⟨_,rfl,hletter (fun _ => rfl) rfl fun _ => rfl⟩
      · split
        · next h =>
          obtain rfl : c = Char.ofNat 12 := by rw [← h,Char.ofNat_toNat]
          exact .inl ⟨_,rfl,hletter (fun _ => rfl) rfl fun _ => rfl⟩
        · split
          · next h =>
            subst h
            exact .inl ⟨_,rfl,hletter (fun _ => rfl) rfl fun _ => rfl⟩
          · split
            · next h =>
              subst h
              exact .inl ⟨_,rfl,hletter (fun _ => rfl) rfl fun _ => rfl⟩
            · next hslash =>
              split
              · next h => exact .inl ⟨_,rfl,Escapes.number (by omega)⟩
              · next h =>
                refine .inr (.inl ⟨rfl,?_⟩)
                simp only [isPlain,isCommentChar,Bool.and_eq_true,Bool.or_eq_true,decide_eq_true_eq]
                exact ⟨⟨.inr ⟨by omega,by omega⟩,hc⟩,hslash⟩

/-! ### One line -/

private theorem escape_cons_of_ne {lines : Bool} {quotes : Nat} {c : Char} (hc : c ≠ '"') (run : Nat) (cs : List Char) :
    escape lines quotes run (c::cs) = escapeChar lines c ++ escape lines quotes 0 cs := by
  rw [escape,if_neg hc]

private theorem length_le_escape (lines : Bool) (quotes : Nat) (cs : List Char) (run : Nat) :
    cs.length ≤ (escape lines quotes run cs).length := by
  induction cs generalizing run with
  | nil => exact Nat.zero_le _
  | cons c cs ih =>
    by_cases hc : c = '"'
    · rw [escape,if_pos hc]
      split
      · exact Nat.succ_le_succ (ih _)
      · exact Nat.succ_le_succ ((ih _).trans (Nat.le_succ _))
    · have hpos : 0 < (escapeChar lines c).length := by
        rcases escapeChar_cases lines hc with ⟨e,he,-⟩ | ⟨he,-⟩ | ⟨-,he,-⟩ <;> rw [he] <;> exact Nat.succ_pos _
      have := ih 0
      rw [escape_cons_of_ne hc,List.length_append,List.length_cons]
      omega

/-- A string in double quotes is read back. -/
theorem basicBody_escape {cs : List Char} {fuel : Nat} (h : cs.length < fuel) (rest : List Char) :
    basicBody fuel (escape false 0 0 cs ++ '"'::rest) = .ok (cs,rest) := by
  induction cs generalizing fuel with
  | nil =>
    obtain ⟨fuel,rfl⟩ : ∃ n, fuel = n + 1 := ⟨fuel - 1,by omega⟩
    rfl
  | cons c cs ih =>
    obtain ⟨fuel,rfl⟩ : ∃ n, fuel = n + 1 := ⟨fuel - 1,by omega⟩
    have hrest := @ih fuel (by simpa using h)
    have hescape : ∀ {e : List Char}, Escapes c e →
        basicBody (fuel+1) ('\\'::(e ++ (escape false 0 0 cs ++ '"'::rest))) = .ok (c::cs,rest) := by
      intro e he
      have hne : e ++ (escape false 0 0 cs ++ '"'::rest) ≠ [] := by simp
      rw [basicBody,if_neg (by decide),if_pos rfl,if_neg hne]
      exact (bind_of_ok (he.read _)).trans (bind_of_ok hrest)
    by_cases hc : c = '"'
    · subst hc
      exact hescape (e := ['"']) ⟨fun _ => rfl,fun _ => rfl,List.cons_ne_nil _ _⟩
    · rw [escape_cons_of_ne hc]
      rcases escapeChar_cases false hc with ⟨e,he,hread⟩ | ⟨he,hplain⟩ | ⟨h,-⟩
      · rw [he,List.cons_append,List.cons_append,List.append_assoc]
        exact hescape hread
      · have hslash : c ≠ '\\' := by rintro rfl; cases hplain
        rw [he,List.cons_append,List.nil_append,List.cons_append,basicBody,if_neg hc,if_neg hslash,if_pos hplain,hrest]
        rfl
      · cases h

/-- A string in single quotes is read back, if it has neither a single quote nor a control character. -/
theorem literalBody_append {cs : List Char} (hquote : '\x27' ∉ cs) (hplain : ∀ c ∈ cs, isCommentChar c = true)
    (rest : List Char) : literalBody (cs ++ '\x27'::rest) = .ok (cs,rest) := by
  induction cs with
  | nil => rfl
  | cons c cs ih =>
    rw [List.mem_cons,not_or] at hquote
    have hrest := ih hquote.2 fun d hd => hplain d (List.mem_cons_of_mem _ hd)
    rw [List.cons_append,literalBody,if_neg (Ne.symm hquote.1),if_pos (hplain c List.mem_cons_self),hrest]
    rfl

/-! ### Several lines -/

/-- How a text stands in a string of several lines, where `run` quotes stand just before it. -/
inductive Spelt (q : Char) (escapes : Bool) : Nat → List Char → List Char → Prop
  | nil {run : Nat} : Spelt q escapes run [] []
  | quote {run : Nat} {cs t : List Char} : run < 2 → Spelt q escapes (run+1) cs t → Spelt q escapes run (q::cs) (q::t)
  | line {run : Nat} {cs t : List Char} : Spelt q escapes 0 cs t → Spelt q escapes run ('\n'::cs) ('\n'::t)
  | plain {run : Nat} {c : Char} {cs t : List Char} : isCommentChar c = true → c ≠ q → (escapes = true → c ≠ '\\') →
      Spelt q escapes 0 cs t → Spelt q escapes run (c::cs) (c::t)
  | escape {run : Nat} {c : Char} {e cs t : List Char} : escapes = true → Escapes c e → Spelt q escapes 0 cs t →
      Spelt q escapes run (c::cs) ('\\'::(e ++ t))

/-- The characters that stand around a string. -/
structure IsQuote (q : Char) : Prop where
  comment : isCommentChar q = true
  slash : q ≠ '\\'
  line : q ≠ '\n'
  feed : q ≠ '\r'

private theorem quoteRun_eq (q : Char) (cs : List Char) : quoteRun q cs = min 5 (cs.takeWhile (· = q)).length := by
  have htake : ∀ (n : Nat) (cs : List Char), ((cs.take n).takeWhile (· = q)).length =
      min n (cs.takeWhile (· = q)).length := by
    intro n
    induction n with
    | zero => intro cs; simp
    | succ n ih =>
      intro cs
      cases cs with
      | nil => simp
      | cons c cs =>
        by_cases hc : c = q
        · simp [hc,ih,Nat.succ_min_succ]
        · simp [hc]
  exact htake 5 cs

variable {q : Char} {escapes : Bool} {run : Nat} {cs t rest : List Char}

/-- Either only quotes are left of the text, at most two together with those before it, or too few of them come next to
close it. -/
theorem Spelt.quotes (h : Spelt q escapes run cs t) (hq : IsQuote q) (hrun : run ≤ 2) (rest : List Char) :
    (∃ k, k + run ≤ 2 ∧ cs = List.replicate k q ∧ t = List.replicate k q) ∨
      ((t ++ q::q::q::rest).takeWhile (· = q)).length + run < 3 := by
  have hhead : ∀ {c : Char} {ds : List Char}, c ≠ q → ((c::ds).takeWhile (· = q)).length = 0 := by
    intro c ds hc
    rw [List.takeWhile_cons_of_neg (by simpa using hc),List.length_nil]
  induction h with
  | nil => exact .inl ⟨0,by omega,rfl,rfl⟩
  | quote hlt _ ih =>
    rcases ih (by omega) with ⟨k,hk,hcs,ht⟩ | hshort
    · exact .inl ⟨k+1,by omega,by rw [hcs]; rfl,by rw [ht]; rfl⟩
    · right
      rw [List.cons_append,List.takeWhile_cons_of_pos (by simp),List.length_cons]
      omega
  | line _ _ =>
    right
    rw [List.cons_append,hhead (Ne.symm hq.line)]
    omega
  | plain _ hc _ _ _ =>
    right
    rw [List.cons_append,hhead hc]
    omega
  | escape _ _ _ _ =>
    right
    rw [List.cons_append,hhead (Ne.symm hq.slash)]
    omega

theorem newline?_of_ne {c : Char} (hn : c ≠ '\n') (hr : c ≠ '\r') (cs : List Char) : newline? (c::cs) = none := by
  unfold newline?
  split
  · next h => exact absurd (List.cons.inj h).1 hn
  · next h => exact absurd (List.cons.inj h).1 hr
  · rfl

private theorem newline?_of_comment {c : Char} (hc : isCommentChar c = true) (cs : List Char) : newline?
    (c::cs) = none := by
  refine newline?_of_ne ?_ ?_ cs <;> rintro rfl <;> cases hc

/-- Up to two quotes before the closing ones belong to the string. -/
theorem linesBody_close (hrest : rest.head? ≠ some q) {k : Nat} (hk : k ≤ 2) (fuel : Nat) :
    linesBody q escapes (fuel+1) (List.replicate k q ++ q::q::q::rest) = .ok (List.replicate k q,rest) := by
  have hall : List.replicate k q ++ q::q::q::rest = q::(List.replicate (k + 2) q ++ rest) := by
    change List.replicate k q ++ (List.replicate 3 q ++ rest) = List.replicate (k + 3) q ++ rest
    rw [← List.append_assoc,List.replicate_append_replicate]
  have hrun : quoteRun q (q::(List.replicate (k + 2) q ++ rest)) = k + 3 := by
    have hstop : rest.takeWhile (· = q) = [] := by
      cases rest with
      | nil => rfl
      | cons c rest => exact List.takeWhile_cons_of_neg (by simpa using hrest)
    rw [quoteRun_eq,List.takeWhile_cons_of_pos (by simp),List.takeWhile_append_of_pos (by simp),hstop]
    simp
    omega
  rw [hall,linesBody]
  simp only [hrun]
  rw [if_pos (by omega)]
  have hdrop : (q::(List.replicate (k + 2) q ++ rest)).drop (k + 3) = rest := by
    rw [List.drop_succ_cons]
    exact List.drop_left' (List.length_replicate)
  rw [hdrop,Nat.add_sub_cancel]

/-- A string of several lines is read back. -/
theorem Spelt.read (h : Spelt q escapes run cs t) (hq : IsQuote q) (hrun : run ≤ 2) (hrest : rest.head? ≠ some q)
    {fuel : Nat} (hfuel : cs.length < fuel) :
    linesBody q escapes fuel (t ++ q::q::q::rest) = .ok (cs,rest) := by
  -- Before each character the closing quotes are tried: either they are there, or too few quotes come next to be them.
  have hclosed : ∀ {run : Nat} {cs t : List Char} {fuel : Nat}, Spelt q escapes run cs t → run ≤ 2 → cs.length < fuel →
      linesBody q escapes fuel (t ++ q::q::q::rest) = .ok (cs,rest) ∨
        quoteRun q (t ++ q::q::q::rest) < 3 := by
    intro run cs t fuel h hrun hfuel
    obtain ⟨fuel,rfl⟩ : ∃ n, fuel = n + 1 := ⟨fuel - 1,by omega⟩
    rcases h.quotes hq hrun rest with ⟨k,hk,rfl,rfl⟩ | hshort
    · exact .inl (linesBody_close hrest (by omega) fuel)
    · exact .inr (by rw [quoteRun_eq]; omega)
  induction h generalizing fuel with
  | nil =>
    obtain ⟨fuel,rfl⟩ : ∃ n, fuel = n + 1 := ⟨fuel - 1,by omega⟩
    exact linesBody_close hrest (Nat.zero_le 2) fuel
  | @quote run cs t hlt h ih =>
    rcases hclosed (.quote hlt h) hrun hfuel with hread | hshort
    · exact hread
    · obtain ⟨fuel,rfl⟩ : ∃ n, fuel = n + 1 := ⟨fuel - 1,by omega⟩
      have hline := newline?_of_comment hq.comment (t ++ q::q::q::rest)
      rw [List.cons_append] at hshort ⊢
      rw [linesBody]
      simp only [if_neg (Nat.not_le.mpr hshort),hline]
      rw [if_neg (fun h => hq.slash h.2),if_pos hq.comment,ih (by omega) (by simpa using hfuel)]
      rfl
  | @line run cs t h ih =>
    rcases hclosed (.line h) hrun hfuel with hread | hshort
    · exact hread
    · obtain ⟨fuel,rfl⟩ : ∃ n, fuel = n + 1 := ⟨fuel - 1,by omega⟩
      have hline : ∀ ds, newline? ('\n'::ds) = some ds := fun _ => rfl
      rw [List.cons_append] at hshort ⊢
      rw [linesBody]
      simp only [if_neg (Nat.not_le.mpr hshort),hline,ih (Nat.zero_le 2) (by simpa using hfuel)]
      rfl
  | @plain run c cs t hc hcq hslash h ih =>
    rcases hclosed (.plain hc hcq hslash h) hrun hfuel with hread | hshort
    · exact hread
    · obtain ⟨fuel,rfl⟩ : ∃ n, fuel = n + 1 := ⟨fuel - 1,by omega⟩
      have hline := newline?_of_comment hc (t ++ q::q::q::rest)
      rw [List.cons_append] at hshort ⊢
      rw [linesBody]
      simp only [if_neg (Nat.not_le.mpr hshort),hline]
      rw [if_neg (fun h => hslash h.1 h.2),if_pos hc,ih (Nat.zero_le 2) (by simpa using hfuel)]
      rfl
  | @escape run c e cs t hescapes he h ih =>
    rcases hclosed (.escape hescapes he h) hrun hfuel with hread | hshort
    · exact hread
    · obtain ⟨fuel,rfl⟩ : ∃ n, fuel = n + 1 := ⟨fuel - 1,by omega⟩
      have hline : ∀ ds, newline? ('\\'::ds) = none := fun _ => rfl
      rw [List.cons_append,List.append_assoc] at hshort ⊢
      rw [linesBody]
      simp only [if_neg (Nat.not_le.mpr hshort),hline]
      rw [if_pos ⟨hescapes,trivial⟩,he.head]
      exact (bind_of_ok (he.read _)).trans (bind_of_ok (ih (Nat.zero_le 2) (by simpa using hfuel)))

/-- A text with escapes, as several lines. -/
theorem spelt_escape (cs : List Char) (run : Nat) : Spelt '"' true run cs (escape true 2 run cs) := by
  induction cs generalizing run with
  | nil => exact .nil
  | cons c cs ih =>
    by_cases hc : c = '"'
    · subst hc
      rw [escape,if_pos rfl]
      split
      · next hlt => exact .quote hlt (ih _)
      · exact .escape (e := ['"']) rfl ⟨fun _ => rfl,fun _ => rfl,List.cons_ne_nil _ _⟩ (ih 0)
    · rw [escape_cons_of_ne hc]
      rcases escapeChar_cases true hc with ⟨e,he,hread⟩ | ⟨he,hplain⟩ | ⟨-,he,rfl⟩
      · rw [he]
        exact .escape rfl hread (ih 0)
      · rw [he]
        simp only [isPlain,Bool.and_eq_true,decide_eq_true_eq] at hplain
        exact .plain hplain.1.1 hc (fun _ => hplain.2) (ih 0)
      · rw [he]
        exact .line (ih 0)

private theorem le_longestRun (q : Char) (run : Nat) (cs : List Char) : run ≤ longestRun q run cs := by
  induction cs generalizing run with
  | nil => exact Nat.le_refl _
  | cons c cs ih =>
    rw [longestRun]
    split
    · exact (Nat.le_succ _).trans (ih _)
    · exact Nat.le_max_left _ _

/-- A text as it is, as several lines, if no more than two quotes come in a row. -/
theorem spelt_self {q : Char} {cs : List Char} {run : Nat} (hplain : ∀ c ∈ cs, c = '\n' ∨ isCommentChar c = true)
    (hruns : longestRun q run cs ≤ 2) : Spelt q false run cs cs := by
  induction cs generalizing run with
  | nil => exact .nil
  | cons c cs ih =>
    have hrest : ∀ d ∈ cs, d = '\n' ∨ isCommentChar d = true := fun d hd => hplain d (List.mem_cons_of_mem _ hd)
    rw [longestRun] at hruns
    split at hruns
    · next hc =>
      subst hc
      have := le_longestRun c (run+1) cs
      exact .quote (by omega) (ih hrest hruns)
    · next hc =>
      have hzero : longestRun q 0 cs ≤ 2 := (Nat.le_max_right _ _).trans hruns
      rcases hplain c List.mem_cons_self with rfl | hcomment
      · exact .line (ih hrest hzero)
      · exact .plain hcomment hc nofun (ih hrest hzero)

/-! ### All forms -/

private theorem not_mem_of_longestRun {q : Char} {cs : List Char} (h : longestRun q 0 cs = 0) : q ∉ cs := by
  induction cs with
  | nil => exact List.not_mem_nil
  | cons c cs ih =>
    rw [longestRun] at h
    split at h
    · have hpos : 1 ≤ longestRun q (0 + 1) cs := le_longestRun q (0 + 1) cs
      omega
    · next hc => exact List.not_mem_cons_of_ne_of_not_mem (Ne.symm hc) (ih (by omega))

/-- A character that needs no escape stands for itself, or ends a line. -/
theorem plain_of_not_needsEscape {c : Char} (h : needsEscape c = false) : c = '\n' ∨ isCommentChar c = true := by
  simp only [needsEscape,Bool.or_eq_false_iff,Bool.and_eq_false_iff,decide_eq_false_iff_not,not_not] at h
  simp only [isCommentChar,Bool.or_eq_true,Bool.and_eq_true,decide_eq_true_eq]
  obtain ⟨(hlow | htab) | hline,hdelete⟩ := h
  · exact .inr (.inr ⟨by omega,hdelete⟩)
  · exact .inr (.inl htab)
  · exact .inl hline

private theorem Spelt.length_le {q : Char} {escapes : Bool} {run : Nat} {cs t : List Char}
    (h : Spelt q escapes run cs t) :
    cs.length ≤ t.length := by
  induction h with
  | nil => exact Nat.le_refl 0
  | quote _ _ ih => exact Nat.succ_le_succ ih
  | line _ ih => exact Nat.succ_le_succ ih
  | plain _ _ _ _ ih => exact Nat.succ_le_succ ih
  | escape _ _ _ ih =>
    rw [List.length_cons,List.length_cons,List.length_append]
    omega

/-- A line feed after the opening quotes goes, and one is put there if the text has any. -/
theorem linesString_spelt {q : Char} {escapes : Bool} {cs t rest : List Char} (h : Spelt q escapes 0 cs t)
    (hq : IsQuote q) (hrest : rest.head? ≠ some q) :
    linesString q escapes (leadIn cs ++ (t ++ q::q::q::rest)) = .ok (cs,rest) := by
  have hstart : newline? (leadIn cs ++ (t ++ q::q::q::rest)) =
      if '\n' ∈ cs then some (t ++ q::q::q::rest) else none := by
    rw [leadIn]
    by_cases hline : '\n' ∈ cs
    · rw [if_pos (by simpa using hline),if_pos hline]
      rfl
    · rw [if_neg (by simpa using hline),if_neg hline,List.nil_append]
      cases h with
      | nil => exact newline?_of_comment hq.comment _
      | quote _ _ => exact newline?_of_comment hq.comment _
      | line _ => exact absurd List.mem_cons_self hline
      | plain hc _ _ _ => exact newline?_of_comment hc _
      | escape _ _ _ => rfl
  have htext : (newline? (leadIn cs ++ (t ++ q::q::q::rest))).getD (leadIn cs ++ (t ++ q::q::q::rest)) =
      t ++ q::q::q::rest := by
    rw [hstart]
    split
    · rfl
    · next hline =>
      rw [leadIn,if_neg (by simpa using hline)]
      rfl
  have hlength := h.length_le
  rw [linesString,htext]
  refine h.read hq (Nat.zero_le 2) hrest ?_
  rw [List.length_append,List.length_append]
  omega

private theorem isQuote_double : IsQuote '"' := ⟨rfl,by decide,by decide,by decide⟩

private theorem isQuote_single : IsQuote '\x27' := ⟨rfl,by decide,by decide,by decide⟩

section Forms

variable {cs rest : List Char} (hrest : ∀ q, IsQuote q → rest.head? ≠ some q)

include hrest

private theorem string_basic : string (quoteAs .basic cs ++ rest) = .ok (String.ofList cs,rest) := by
  have htext : quoteAs .basic cs ++ rest = '"'::(escape false 0 0 cs ++ '"'::rest) := by simp [quoteAs]
  have hone : ∀ t, escape false 0 0 cs ++ '"'::rest ≠ '"' :: '"' :: t := by
    intro t ht
    cases cs with
    | nil =>
      rw [escape,List.nil_append] at ht
      exact hrest _ isQuote_double (by rw [(List.cons.inj ht).2]; rfl)
    | cons c cs =>
      by_cases hc : c = '"'
      · rw [escape,if_pos hc,if_neg (Nat.lt_irrefl 0)] at ht
        cases ht
      · rw [escape_cons_of_ne hc] at ht
        rcases escapeChar_cases false hc with ⟨e,he,-⟩ | ⟨he,-⟩ | ⟨h,-⟩
        · rw [he] at ht
          cases ht
        · rw [he] at ht
          exact hc (List.cons.inj ht).1
        · cases h
  have hlength := length_le_escape false 0 cs 0
  have hbody : basicString (escape false 0 0 cs ++ '"'::rest) = .ok (cs,rest) :=
    Reader.reading_ok (Reader.settled_ok (basicBody_escape (by rw [List.length_append]; omega) rest)) _
  rw [htext,string,hbody]
  · rfl
  · exact hone

private theorem string_literal (hquote : '\x27' ∉ cs) (hplain : ∀ c ∈ cs, isCommentChar c = true) :
    string (quoteAs .literal cs ++ rest) = .ok (String.ofList cs,rest) := by
  have htext : quoteAs .literal cs ++ rest = '\x27'::(cs ++ '\x27'::rest) := by simp [quoteAs]
  have hone : ∀ t, cs ++ '\x27'::rest ≠ '\x27' :: '\x27' :: t := by
    intro t ht
    cases cs with
    | nil => exact hrest _ isQuote_single (by rw [(List.cons.inj ht).2]; rfl)
    | cons c cs => exact hquote (List.mem_cons.mpr (.inl (List.cons.inj ht).1.symm))
  have hbody : literalString (cs ++ '\x27'::rest) = .ok (cs,rest) :=
    Reader.reading_ok (Reader.settled_ok (literalBody_append hquote hplain rest)) _
  rw [htext,string,hbody]
  · rfl
  · exact hone

private theorem string_basicLines : string (quoteAs .basicLines cs ++ rest) = .ok (String.ofList cs,rest) := by
  have htext : quoteAs .basicLines cs ++ rest =
      '"' :: '"' :: '"' :: (leadIn cs ++ (escape true 2 0 cs ++ '"' :: '"' :: '"' :: rest)) := by simp [quoteAs]
  have hbody := linesString_spelt (spelt_escape cs 0) isQuote_double (hrest _ isQuote_double)
  rw [htext,string,Reader.reading_ok (Reader.settled_ok hbody)]
  rfl

private theorem string_literalLines (hplain : ∀ c ∈ cs, c = '\n' ∨ isCommentChar c = true)
    (hruns : longestRun '\x27' 0 cs ≤ 2) : string (quoteAs .literalLines cs ++ rest) = .ok (String.ofList cs,rest) := by
  have htext : quoteAs .literalLines cs ++ rest =
      '\x27' :: '\x27' :: '\x27' :: (leadIn cs ++ (cs ++ '\x27' :: '\x27' :: '\x27' :: rest)) := by simp [quoteAs]
  have hbody := linesString_spelt (spelt_self hplain hruns) isQuote_single (hrest _ isQuote_single)
  rw [htext,string,Reader.reading_ok (Reader.settled_ok hbody)]
  rfl

/-- A string can be written in the form that is chosen for it, and is read back from there. -/
theorem string_quote (s : String) : string (quote s ++ rest) = .ok (s,rest) := by
  have hcontrols : (s.toList.any needsEscape) = false → ∀ c ∈ s.toList, c = '\n' ∨ isCommentChar c = true :=
    fun h c hc => plain_of_not_needsEscape (by simpa using List.any_eq_false.mp h c hc)
  have hread : string (quoteAs (StringForm.choose s.toList) s.toList ++ rest) =
      .ok (String.ofList s.toList,rest) := by
    rw [StringForm.choose]
    -- The cases are those of the choice, and each form is read back under what led to it.
    split
    · exact string_basic hrest
    · split
      · next h =>
        simp only [Bool.and_eq_true,Bool.not_eq_true',decide_eq_true_eq] at h
        obtain ⟨⟨hplain,hsingles⟩,hlines⟩ := h
        refine string_literal hrest (not_mem_of_longestRun hsingles) fun c hc => (hcontrols hplain c hc).resolve_left ?_
        rintro rfl
        simp [hc] at hlines
      · split
        · exact string_basicLines hrest
        · split
          · next h =>
            simp only [Bool.and_eq_true,Bool.not_eq_true',decide_eq_true_eq] at h
            exact string_literalLines hrest (hcontrols h.1) h.2
          · split
            · exact string_basicLines hrest
            · exact string_basic hrest
  rw [quote,hread,String.ofList_toList]

end Forms

end FieldReplica.Toml
