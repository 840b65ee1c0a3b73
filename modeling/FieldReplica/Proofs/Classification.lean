import Mathlib.Tactic.MkIffOfInductiveProp
import FieldReplica.Console.Failure
import FieldReplica.Proofs.Search

/-!
# Two accounts of one failure

The exit status and the code of the message are decided separately, by the cause of a failure where they know
it and else by words, and it is asked of which failures they tell the same. They part over mutations that are
refused to a user who is not admitted, over requests of which only the exit status knows the cause, and over
the words by which each of the two knows such a user and a network that is down.
-/
namespace FieldReplica.Console

/-! ### Words -/

/-- A text has another one in it. -/
def Says (s part : String) : Prop := Text.holds s.toList part.toList = true

/-- A text has another one in it in whatever case. -/
def Mentions (s part : String) : Prop := Text.holds (s.toList.map Char.toLower) part.toList = true

/-- A text names the status of a user who is not admitted. -/
def NamesStatus (s : String) : Prop := Says s "(401)" ∨ Says s "(403)"

/-- The words by which the message knows a user who is not admitted. -/
def Denies (s : String) : Prop := NamesStatus s ∨ Mentions s "unauthorized"

/-- The words by which the message knows a network that is down. -/
def Unreached (s : String) : Prop := Mentions s "network error" ∨ Mentions s "timed out"

/-- The words by which the exit status knows a network that is down. -/
def Undelivered (s : String) : Prop := Says s "network error" ∨ Says s "shape request failed"

theorem Says.mono {s t part : String} (h : s.toList <:+: t.toList) (hs : Says s part) : Says t part :=
  Text.holds_of_infix h hs

private theorem mentions_iff_of_uncased {part : String} (hp : part.toList.all (·.toNat < 65)) (s : String) :
    Mentions s part ↔ Says s part := by
  have huncased : ∀ c ∈ part.toList, c.toNat < 65 := fun c hc => of_decide_eq_true (List.all_eq_true.mp hp c hc)
  rw [Mentions,Says,Text.holds_toLower huncased]

private theorem namesStatus_iff_mentions (s : String) :
    NamesStatus s ↔ Mentions s "(401)" ∨ Mentions s "(403)" := by
  rw [NamesStatus,mentions_iff_of_uncased (by decide),mentions_iff_of_uncased (by decide)]

theorem Diagnosis.ofText_cases (s : String) : (Denies s ∧ ofText s = .unauthorized) ∨
    (¬ Denies s ∧ Unreached s ∧ ofText s = .network s) ∨
    (¬ Denies s ∧ ¬ Unreached s ∧ ofText s = .other s) := by
  rw [Denies,namesStatus_iff_mentions,Unreached,ofText]
  simp only [Mentions,Bool.or_eq_true]
  split
  · next hdenies => exact .inl ⟨hdenies,rfl⟩
  · next hdenies =>
    split
    · next hunreached => exact .inr (.inl ⟨hdenies,hunreached,rfl⟩)
    · next hunreached => exact .inr (.inr ⟨hdenies,hunreached,rfl⟩)

theorem ExitStatus.ofText_cases (s : String) : (NamesStatus s ∧ ofText s = .unauthorized) ∨
    (¬ NamesStatus s ∧ Undelivered s ∧ ofText s = .network) ∨
    (¬ NamesStatus s ∧ ¬ Undelivered s ∧ ofText s = .failure) := by
  rw [NamesStatus,Undelivered,ofText]
  simp only [Says,Bool.or_eq_true]
  split
  · next hnames => exact .inl ⟨hnames,rfl⟩
  · next hnames =>
    split
    · next hundelivered => exact .inr (.inl ⟨hnames,hundelivered,rfl⟩)
    · next hundelivered => exact .inr (.inr ⟨hnames,hundelivered,rfl⟩)

/-! ### Telling the same -/

/-- The code of a message and an exit status tell the same. -/
@[mk_iff]
structure Diagnosis.Agrees (d : Diagnosis) (s : ExitStatus) : Prop where
  unauthorized : d.code = "AUTH_FAILURE" ↔ s = .unauthorized
  network : d.code = "NETWORK_ERROR" ↔ s = .network
  rejected : d.code = "MUTATION_REJECTED" ∨ d.code = "MUTATION_LOST" ↔ s = .rejected
  settings : d.code = "CONFIG_INVALID" → s = .usage

/-- The exit statuses that go with a message. -/
def Diagnosis.Fits (s : ExitStatus) : Diagnosis → Prop
  | .unauthorized => s = .unauthorized
  | .network _ => s = .network
  | .mutationRejected _ | .mutationLost _ => s = .rejected
  | .badSettings _ => s = .usage
  | .mutationInFlight _ | .mutationFailed _ | .notFound _ | .other _ =>
    s ≠ .unauthorized ∧ s ≠ .network ∧ s ≠ .rejected

private theorem Diagnosis.agrees_iff_fits (d : Diagnosis) (s : ExitStatus) : d.Agrees s ↔ d.Fits s := by
  rw [agrees_iff]
  cases d <;> cases s <;> simp [Fits,code]

section
variable {said judged : String}

private theorem fits_unauthorized_iff : (Diagnosis.ofText said).Fits .unauthorized ↔ Denies said := by
  rcases Diagnosis.ofText_cases said with ⟨hd,h⟩ | ⟨hd,_,h⟩ | ⟨hd,_,h⟩ <;> simp [h,Diagnosis.Fits,hd]

private theorem fits_network_iff : (Diagnosis.ofText said).Fits .network ↔ ¬ Denies said ∧ Unreached said := by
  rcases Diagnosis.ofText_cases said with ⟨hd,h⟩ | ⟨hd,hu,h⟩ | ⟨hd,hu,h⟩
  · simp [h,Diagnosis.Fits,hd]
  · simp [h,Diagnosis.Fits,hd,hu]
  · simp [h,Diagnosis.Fits,hd,hu]

private theorem fits_failure_iff : (Diagnosis.ofText said).Fits .failure ↔ ¬ Denies said ∧ ¬ Unreached said := by
  rcases Diagnosis.ofText_cases said with ⟨hd,h⟩ | ⟨hd,hu,h⟩ | ⟨hd,hu,h⟩
  · simp [h,Diagnosis.Fits,hd]
  · simp [h,Diagnosis.Fits,hd,hu]
  · simp [h,Diagnosis.Fits,hd,hu]

private theorem not_fits_rejected : ¬ (Diagnosis.ofText said).Fits .rejected := by
  rcases Diagnosis.ofText_cases said with ⟨_,h⟩ | ⟨_,_,h⟩ | ⟨_,_,h⟩ <;> simp [h,Diagnosis.Fits]

theorem code_ofText_ne_settings (said : String) : (Diagnosis.ofText said).code ≠ "CONFIG_INVALID" := by
  rcases Diagnosis.ofText_cases said with ⟨_,h⟩ | ⟨_,_,h⟩ | ⟨_,_,h⟩ <;> simp [h,Diagnosis.code]

/-- The message judges all that is said, and the exit status a piece of it. -/
def WordsAgree (said judged : String) : Prop :=
  NamesStatus judged ∨ ¬ Denies said ∧ (Unreached said ↔ Undelivered judged)

private theorem agrees_texts_iff (h : judged.toList <:+: said.toList) :
    (Diagnosis.ofText said).Agrees (ExitStatus.ofText judged) ↔ WordsAgree said judged := by
  rw [Diagnosis.agrees_iff_fits,WordsAgree]
  rcases ExitStatus.ofText_cases judged with ⟨hj,hstatus⟩ | ⟨hj,hv,hstatus⟩ | ⟨hj,hv,hstatus⟩
  · have hdenies : Denies said := .inl (hj.imp (Says.mono h) (Says.mono h))
    rw [hstatus,fits_unauthorized_iff]
    exact iff_of_true hdenies (.inl hj)
  · rw [hstatus,fits_network_iff]
    simp only [hj,hv,false_or,iff_true]
  · rw [hstatus,fits_failure_iff]
    simp only [hj,hv,false_or,iff_false]

end

/-! ### Failures -/

namespace Failure

private theorem cause_suffix_message (f : Failure) : f.cause.message.toList <:+ f.message.toList := by
  rw [message]
  by_cases hcontext : f.context = []
  · rw [hcontext,List.nil_append,String.intercalate_singleton]
  · rw [String.intercalate_append_of_ne_nil hcontext (by simp),String.intercalate_singleton,
      String.toList_append]
    exact List.suffix_append _ _

/-- The failures of which the code of the message and the exit status tell the same. -/
def Concordant (f : Failure) : Prop :=
  match f.cause with
  | .mutation (.rejected status _) => ExitStatus.isUnauthorized status = false
  | .mutation (.network e) => e.retryable = true
  | .mutation _ | .settings (.url _ _) => True
  | .adapter (.rejected status _) => ExitStatus.isUnauthorized status = true ∧ Denies f.message
  | .adapter (.transport _) => ¬ Denies f.message
  | .adapter (.server _ _) => ¬ Denies f.message ∧ Unreached f.message
  | .adapter (.decode _) => ¬ Denies f.message ∧ ¬ Unreached f.message
  | .collection (.failed reason) => WordsAgree f.message reason
  | _ => WordsAgree f.message f.message

private theorem unreached_of_transport (context : List String) (reason : String) :
    Unreached (Failure.message ⟨context,.adapter (.transport reason)⟩) := by
  left
  have hcause : Cause.message (.adapter (.transport reason)) = "network error" ++ (": " ++ reason) := by
    rw [← String.append_assoc]
    rfl
  have hprefix : "network error".toList <+: (Cause.message (.adapter (.transport reason))).toList := by
    rw [hcause,String.toList_append]
    exact List.prefix_append _ _
  have hword := hprefix.isInfix.trans
    (cause_suffix_message ⟨context,.adapter (.transport reason)⟩).isInfix
  have hlower : "network error".toList.map Char.toLower = "network error".toList := by decide
  rw [Mentions,Text.holds_iff,← hlower]
  exact hword.map Char.toLower

private theorem agrees_mutation_iff (context : List String) (e : MutationError) :
    (Diagnosis.ofFailure ⟨context,.mutation e⟩).Agrees (ExitStatus.ofFailure ⟨context,.mutation e⟩) ↔
      Concordant ⟨context,.mutation e⟩ := by
  rw [Diagnosis.agrees_iff_fits]
  cases e with
  | rejected status detail =>
    cases hstatus : ExitStatus.isUnauthorized status <;>
      simp [Diagnosis.ofFailure,ExitStatus.ofFailure,ExitStatus.ofMutation,ExitStatus.ofRejection,
        Diagnosis.Fits,Concordant,hstatus]
  | network e =>
    cases e with
    | rejected status detail =>
      cases hstatus : ExitStatus.isUnauthorized status <;>
        simp [Diagnosis.ofFailure,ExitStatus.ofFailure,ExitStatus.ofMutation,ExitStatus.ofAdapter,
          ExitStatus.ofRejection,Diagnosis.Fits,Concordant,AdapterError.retryable,hstatus]
    | transport reason | server status detail | decode reason =>
      simp [Diagnosis.ofFailure,ExitStatus.ofFailure,ExitStatus.ofMutation,ExitStatus.ofAdapter,
        Diagnosis.Fits,Concordant,AdapterError.retryable]
  | inFlight key | lost key t | unsupported table kind | notFound key | alreadyExists key
  | invalidPatch reason | closed =>
    simp [Diagnosis.ofFailure,ExitStatus.ofFailure,ExitStatus.ofMutation,Diagnosis.Fits,Concordant]

private theorem agrees_adapter_iff (context : List String) (e : AdapterError) :
    (Diagnosis.ofFailure ⟨context,.adapter e⟩).Agrees (ExitStatus.ofFailure ⟨context,.adapter e⟩) ↔
      Concordant ⟨context,.adapter e⟩ := by
  have hcode : Diagnosis.ofFailure ⟨context,.adapter e⟩ = .ofText (Failure.message ⟨context,.adapter e⟩) := rfl
  rw [Diagnosis.agrees_iff_fits,hcode]
  cases e with
  | rejected status detail =>
    have hstatus : ExitStatus.ofFailure ⟨context,.adapter (.rejected status detail)⟩ = .ofRejection status := rfl
    rw [hstatus,ExitStatus.ofRejection,Concordant]
    cases h : ExitStatus.isUnauthorized status with
    | true => simpa [h] using fits_unauthorized_iff
    | false => simpa [h] using not_fits_rejected
  | transport reason =>
    have hunreached := unreached_of_transport context reason
    exact fits_network_iff.trans (and_iff_left hunreached)
  | server status detail => exact fits_network_iff
  | decode reason => exact fits_failure_iff

/-- Bad settings are told of only where a bad address is the cause. -/
theorem settings_of_code {f : Failure} (h : (Diagnosis.ofFailure f).code = "CONFIG_INVALID") :
    ∃ address r, f.cause = .settings (.url address r) := by
  obtain ⟨context,cause⟩ := f
  have htext : ∀ said, Diagnosis.ofFailure ⟨context,cause⟩ = .ofText said → False := by
    intro said hsaid
    rw [hsaid] at h
    exact code_ofText_ne_settings said h
  cases cause with
  | mutation e => cases e <;> simp [Diagnosis.ofFailure,Diagnosis.code] at h
  | settings e =>
    cases e with
    | url address r => exact ⟨address,r,rfl⟩
    | _ => exact (htext _ rfl).elim
  | adapter e | shape e | collection e | access e | text s => exact (htext _ rfl).elim

/-- The code of the message and the exit status tell the same of exactly these failures. In any case bad
settings are told of only if the exit status does so. -/
theorem agrees_iff_concordant (f : Failure) :
    ((Diagnosis.ofFailure f).Agrees (ExitStatus.ofFailure f) ↔ f.Concordant) ∧
      ((Diagnosis.ofFailure f).code = "CONFIG_INVALID" → ExitStatus.ofFailure f = .usage) := by
  obtain ⟨context,cause⟩ := f
  have htext : (Diagnosis.ofText (message ⟨context,cause⟩)).Agrees
      (ExitStatus.ofText (message ⟨context,cause⟩)) ↔
        WordsAgree (message ⟨context,cause⟩) (message ⟨context,cause⟩) := agrees_texts_iff List.infix_rfl
  constructor
  · cases cause with
    | mutation e => exact agrees_mutation_iff context e
    | adapter e => exact agrees_adapter_iff context e
    | collection e =>
      cases e with
      | failed reason =>
        refine agrees_texts_iff (List.IsInfix.trans ?_ (cause_suffix_message _).isInfix)
        have hcause : Cause.message (.collection (.failed reason)) = "subscription failed: " ++ reason := rfl
        rw [hcause,String.toList_append]
        exact (List.suffix_append _ _).isInfix
      | closed => exact htext
    | settings e =>
      cases e with
      | url address r => exact (Diagnosis.agrees_iff_fits _ _).trans (iff_of_true rfl trivial)
      | _ => exact htext
    | shape e | access e | text s => exact htext
  · intro hcode
    obtain ⟨address,r,hcause⟩ := settings_of_code hcode
    rw [ExitStatus.ofFailure,hcause]

/-- A mutation that the server did not apply. -/
theorem agrees_iff_concordant_lostMutation :
    let f : Failure := ⟨["failed to set status of E1"],.mutation (.lost "E1" ⟨42⟩)⟩
    f.Concordant ∧ (Diagnosis.ofFailure f).Agrees (ExitStatus.ofFailure f) ∧
      ExitStatus.ofFailure f = .rejected := by
  intro f
  have hconcordant : f.Concordant := trivial
  exact ⟨hconcordant,(agrees_iff_concordant f).1.mpr hconcordant,rfl⟩

/-- The shape stream of a project cannot be reached. The program exits as after a network failure, and the code
of the message does not say so. -/
theorem unreachableShape_disagrees :
    let f : Failure := ⟨["project 7 did not finish syncing"],
      .collection (.failed "shape request failed: connection refused")⟩
    ExitStatus.ofFailure f = .network ∧ (Diagnosis.ofFailure f).code = "SYNC_ERROR" ∧
      ¬ (Diagnosis.ofFailure f).Agrees (ExitStatus.ofFailure f) := by
  intro f
  have hstatus : ExitStatus.ofFailure f = .network := by decide +kernel
  have hcode : (Diagnosis.ofFailure f).code = "SYNC_ERROR" := by decide +kernel
  refine ⟨hstatus,hcode,fun hagrees => ?_⟩
  have hnetwork := hagrees.network.mpr hstatus
  rw [hcode] at hnetwork
  exact absurd hnetwork (by decide)

end Failure
end FieldReplica.Console
