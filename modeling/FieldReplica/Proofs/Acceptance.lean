import Mathlib.Algebra.Group.Nat.Defs
import FieldReplica.Proofs.Endpoints
import FieldReplica.Proofs.Queries
import FieldReplica.Settings.ApiUrl

/-!
# Accepted addresses

An address of an API that is accepted has a host and a path of segments, as every web address has. It is encrypted, or
its host is the machine itself: by name, by one of the addresses of four octets that begin with 127, or by the one
address of eight pieces.
-/
namespace FieldReplica.Url

private theorem ok_of_bind {ε α β : Type} {x : Except ε α} {f : α → Except ε β} {b : β} (h : x >>= f = .ok b) :
    ∃ a, x = .ok a ∧ f a = .ok b := by
  cases x with
  | error e => cases h
  | ok a => exact ⟨a,rfl,h⟩

/-! ### Hosts -/

private theorem foldl_octets_lt {numbers : List Nat} (h : ∀ n ∈ numbers, n ≤ 255) (acc : Nat) :
    numbers.foldl (fun acc n => acc * 256 + n) acc < (acc + 1) * 256 ^ numbers.length := by
  induction numbers generalizing acc with
  | nil => simp
  | cons n ns ih =>
    have hn := h n List.mem_cons_self
    have hns := ih (fun m hm => h m (List.mem_cons_of_mem _ hm)) (acc * 256 + n)
    rw [List.foldl_cons,List.length_cons,Nat.pow_succ']
    calc _ < (acc * 256 + n + 1) * 256 ^ ns.length := hns
      _ ≤ ((acc + 1) * 256) * 256 ^ ns.length := Nat.mul_le_mul_right _ (by omega)
      _ = (acc + 1) * (256 * 256 ^ ns.length) := Nat.mul_assoc _ _ _

private theorem Ipv4.parse?_lt {cs : List Char} {n : Nat} (h : Ipv4.parse? cs = some n) : n < 2 ^ 32 := by
  rw [Ipv4.parse?] at h
  obtain ⟨numbers,-,h⟩ := Option.bind_eq_some_iff.mp h
  obtain ⟨last,-,h⟩ := Option.bind_eq_some_iff.mp h
  dsimp only at h
  split at h
  · cases h
  · next hbounds =>
    rw [← Option.some.inj h]
    have hsize : numbers.length ≤ 4 := by omega
    have hfront : ∀ m ∈ numbers.dropLast, m ≤ 255 := by
      intro m hm
      by_contra hlt
      exact hbounds (.inr (.inl (List.any_eq_true.mpr ⟨m,hm,decide_eq_true (by omega)⟩)))
    have hlast : last < 2 ^ (8 * (4 - numbers.dropLast.length)) := by
      rw [← Nat.one_shiftLeft]
      omega
    have hhigh := foldl_octets_lt hfront 0
    generalize numbers.dropLast.foldl (fun acc n => acc * 256 + n) 0 = high at hhigh ⊢
    have hlength : numbers.dropLast.length ≤ 3 := by rw [List.length_dropLast]; omega
    generalize numbers.dropLast.length = k at hhigh hlast hlength ⊢
    have hsplit : 256 ^ k * 2 ^ (8 * (4 - k)) = 2 ^ 32 := by
      rw [show 256 = 2 ^ 8 from rfl,← Nat.pow_mul,← Nat.pow_add]
      congr 1
      omega
    rw [Nat.shiftLeft_eq]
    calc high * 2 ^ (8 * (4 - k)) + last < (high + 1) * 2 ^ (8 * (4 - k)) := by rw [Nat.add_mul]; omega
      _ ≤ 256 ^ k * 2 ^ (8 * (4 - k)) := Nat.mul_le_mul_right _ (by omega)
      _ = 2 ^ 32 := hsplit

private theorem Ipv4.isLoopback_iff {n : Nat} (h : n < 2 ^ 32) : Ipv4.isLoopback n = true ↔ n / 2 ^ 24 = 127 := by
  rw [Ipv4.isLoopback,decide_eq_true_eq,Nat.shiftRight_eq_div_pow,Nat.mod_eq_of_lt]
  omega

/-- The numbers of hosts are those of addresses. -/
def Host.Sound : Host → Prop
  | .ipv4 n => n < 2 ^ 32
  | _ => True

private theorem Host.sound_of_parseSpecial {cs : List Char} {host : Host} (h : parseSpecial cs = .ok host) :
    host.Sound := by
  unfold parseSpecial at h
  split at h
  · unfold parseBracketed at h
    split at h
    · rw [← Except.ok.inj h]
      trivial
    · cases h
  · split at h
    · cases h
    · cases h
    · split at h
      · split at h
        · next hn =>
          rw [← Except.ok.inj h]
          exact Ipv4.parse?_lt hn
        · cases h
      · rw [← Except.ok.inj h]
        trivial

private theorem sound_of_parseHostPort {scheme userinfo cs : List Char} {a : Authority}
    (h : parseHostPort scheme userinfo cs = .ok a) (hweb : schemeKind scheme = .web) : a.host.Sound := by
  have hspecial : (schemeKind scheme).special = true := by rw [hweb]; rfl
  unfold parseHostPort at h
  simp only [hspecial,if_true,true_and] at h
  split at h
  · cases h
  · obtain ⟨host,hhost,h⟩ := ok_of_bind h
    have hsound := Host.sound_of_parseSpecial hhost
    split at h
    · split at h
      · cases h
      · obtain ⟨port,-,h⟩ := ok_of_bind h
        rw [← Except.ok.inj h]
        exact hsound
    · rw [← Except.ok.inj h]
      exact hsound

private theorem sound_of_parseAuthority {scheme cs rest : List Char} {a : Authority}
    (h : parseAuthority scheme cs rest = .ok a)
    (hweb : schemeKind scheme = .web) : a.host.Sound := by
  unfold parseAuthority at h
  split at h
  · exact sound_of_parseHostPort h hweb
  · split at h
    · cases h
    · obtain ⟨b,hb,h⟩ := ok_of_bind h
      split at h
      · cases h
      · rw [← Except.ok.inj h]
        exact sound_of_parseHostPort hb hweb

private theorem exists_of_parseFront {scheme cs : List Char} {front : Option Authority}
    (h : parseFront scheme cs = .ok front)
    (hweb : schemeKind scheme = .web) : ∃ a, front = some a ∧ a.host.Sound := by
  unfold parseFront at h
  simp only [hweb] at h
  obtain ⟨a,ha,h⟩ := ok_of_bind h
  rw [← Except.ok.inj h]
  exact ⟨{ a with rest := _ },rfl,(sound_of_parseAuthority ha hweb : a.host.Sound)⟩

/-! ### Paths -/

private theorem resolveDots_ne_nil (done : List (List Char)) {segs : List (List Char)} (h : segs ≠ []) :
    resolveDots done segs ≠ [] := by
  induction segs generalizing done with
  | nil => exact absurd rfl h
  | cons seg segs ih =>
    cases segs with
    | nil =>
      rw [resolveDots]
      split
      · simp
      · split <;> simp
    | cons next segs =>
      rw [resolveDots]
      · split
        · exact ih _ (List.cons_ne_nil _ _)
        · split
          · exact ih _ (List.cons_ne_nil _ _)
          · exact ih _ (List.cons_ne_nil _ _)
      · exact List.cons_ne_nil _ _

private theorem parsePath_ne_nil (cs : List Char) : parsePath true cs ≠ [] := by
  have hsegments : ∀ cs, parseSegments true cs ≠ [] := fun cs =>
    resolveDots_ne_nil _ (by simpa using splitOn_ne_nil _ _)
  cases cs with
  | nil => exact List.cons_ne_nil _ _
  | cons c cs =>
    rw [parsePath]
    split
    · exact hsegments _
    · exact hsegments _

/-! ### Addresses -/

private theorem parse_web {s : String} {u : Url} (h : parse s = .ok u) (hweb : schemeKind u.scheme = .web) :
    (∃ host, u.host = some host ∧ host.Sound) ∧ ∃ segs, segs ≠ [] ∧ u.path = .segments segs := by
  unfold parse at h
  split at h
  · next scheme cs _ =>
    obtain ⟨front,hfront,h⟩ := ok_of_bind h
    cases front with
    | some a =>
      rw [← Except.ok.inj h] at hweb ⊢
      obtain ⟨b,hb,hsound⟩ := exists_of_parseFront hfront hweb
      obtain rfl := Option.some.inj hb
      have hspecial : (schemeKind scheme).special = true := by rw [show schemeKind scheme = .web from hweb]; rfl
      exact ⟨⟨_,rfl,hsound⟩,_,by rw [hspecial]; exact parsePath_ne_nil _,rfl⟩
    | none =>
      rw [← Except.ok.inj h] at hweb
      obtain ⟨a,ha,-⟩ := exists_of_parseFront hfront hweb
      cases ha
  · cases h

/-- Where what is sent cannot be read by others: an encrypted address, or one of the machine itself. -/
inductive Private : Url → Prop
  | encrypted {u : Url} : u.scheme = "https".toList → Private u
  | name {u : Url} {text : List Char} : u.scheme = "http".toList → u.host = some (.name text) →
      text.map Char.toLower = "localhost".toList → Private u
  /-- The addresses from 127.0.0.0 to 127.255.255.255. -/
  | octets {u : Url} {n : Nat} : u.scheme = "http".toList → u.host = some (.ipv4 n) → n < 2 ^ 32 → n / 2 ^ 24 = 127 →
      Private u
  /-- The address ::1. -/
  | pieces {u : Url} : u.scheme = "http".toList → u.host = some (.ipv6 [0,0,0,0,0,0,0,1]) → Private u

/-- What is known of an address that is accepted. -/
theorem accepted {s : String} {u : Url} (h : parseSecure s = .ok u) :
    Private u ∧ ∃ segs, segs ≠ [] ∧ u.path = .segments segs := by
  unfold parseSecure at h
  split at h
  · cases h
  · next v hparse =>
    split at h
    · next hsecure =>
      rw [← Except.ok.inj h]
      rw [isSecure,Bool.or_eq_true,Bool.and_eq_true,decide_eq_true_eq,decide_eq_true_eq] at hsecure
      have hweb : schemeKind v.scheme = .web := by
        rcases hsecure with hs | ⟨hs,-⟩
        · rw [hs]
          rfl
        · rw [hs]
          rfl
      obtain ⟨⟨host,hhost,hsound⟩,hpath⟩ := parse_web hparse hweb
      refine ⟨?_,hpath⟩
      rcases hsecure with hs | ⟨hs,hloop⟩
      · exact .encrypted hs
      · rw [hhost,Option.any_some] at hloop
        cases host with
        | name text => exact .name hs hhost (of_decide_eq_true hloop)
        | ipv4 n => exact .octets hs hhost hsound ((Ipv4.isLoopback_iff hsound).mp hloop)
        | ipv6 pieces => exact .pieces hs (by rw [hhost,of_decide_eq_true hloop])
    · cases h

end FieldReplica.Url
