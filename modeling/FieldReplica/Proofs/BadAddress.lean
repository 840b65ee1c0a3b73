import FieldReplica.Console.Run
import FieldReplica.Proofs.Classification

/-!
# A bad address in the settings

A command that opens a project ends at once when the address of the API is bad: nothing has been asked of the
network then. How it ends is told by words alone, and the only words in which one such failure differs from
another are those of the address. So the address itself decides on the exit status and on the code of the
message, and neither of them ever tells of bad settings.
-/
namespace FieldReplica

namespace Console

/-- The project that a command opens. -/
def Invocation.project? : Invocation → Option Int64
  | .watch project _ _ | .entityList project _ _ | .entitySetStatus project _ _ _
  | .eventAdd project _ _ _ _ _ _ | .eventHistory project _ _ => some project
  | .configShow _ _ | .configPath _ => none

/-- Whether a command is asked for output in JSON. -/
def Invocation.json : Invocation → Bool
  | .watch _ _ json | .entityList _ _ json | .entitySetStatus _ _ _ json | .eventAdd _ _ _ _ _ _ json
  | .eventHistory _ _ json | .configShow _ json | .configPath json => json

end Console

open Console

/-- A diagnosis that words give, for other words. -/
def Console.Diagnosis.about (said : String) : Diagnosis → Diagnosis
  | .network _ => .network said
  | .other _ => .other said
  | d => d

private theorem Console.Diagnosis.code_about (said : String) (d : Diagnosis) : (d.about said).code = d.code := by
  cases d <;> rfl

/-- The words that tell something of a failure. -/
def tellingWords : List String :=
  ["(401)","(403)","network error","shape request failed","unauthorized","timed out"]

/-- How the failure of a bad address is known. -/
def badAddress (address : String) (r : UrlRefusal) : Failure :=
  Failure.during "failed to configure API access" ⟨[],.access (.url address r)⟩

namespace badAddress

variable (address : String) (r : UrlRefusal)

def before : String := "failed to configure API access: invalid api_url "

def reason (r : UrlRefusal) : String := ": " ++ r.message

private theorem message_eq : (badAddress address r).message =
    before ++ "\x60" ++ (address ++ ("\x60" ++ reason r)) := by
  have hbefore : before ++ "\x60" = "failed to configure API access" ++ ": " ++ "invalid api_url \x60" := by
    decide +kernel
  have hreason : "\x60" ++ reason r = "\x60: " ++ r.message := by
    rw [reason,← String.append_assoc]
    rfl
  rw [hbefore,hreason,String.append_assoc,← @String.append_assoc "invalid api_url \x60",
    ← @String.append_assoc _ "\x60: "]
  rfl

private theorem message_toList : (badAddress address r).message.toList =
    before.toList ++ '\x60'::(address.toList ++ '\x60'::(reason r).toList) := by
  have htick : "\x60".toList = ['\x60'] := by decide +kernel
  rw [message_eq]
  simp only [String.toList_append,htick,List.append_assoc,List.singleton_append]

/-- Nothing that is said around an address tells anything. -/
theorem around_tells_nothing {f : Char → Char} (hf : f = id ∨ f = Char.toLower) {part : String}
    (hp : part ∈ tellingWords) : Text.holds (before.toList.map f) part.toList = false ∧
      Text.holds ((reason r).toList.map f) part.toList = false := by
  have hbefore : ∀ part ∈ tellingWords, Text.holds (before.toList.map id) part.toList = false ∧
      Text.holds (before.toList.map Char.toLower) part.toList = false := by decide +kernel
  have hreason : ∀ part ∈ tellingWords, Text.holds ((reason r).toList.map id) part.toList = false ∧
      Text.holds ((reason r).toList.map Char.toLower) part.toList = false := by
    cases r with
    | insecure => decide +kernel
    | malformed e => cases e <;> decide +kernel
  rcases hf with rfl | rfl
  · exact ⟨(hbefore part hp).1,(hreason part hp).1⟩
  · exact ⟨(hbefore part hp).2,(hreason part hp).2⟩

private theorem holds_message {f : Char → Char} (hf : f = id ∨ f = Char.toLower) {part : String}
    (hp : part ∈ tellingWords) : Text.holds ((badAddress address r).message.toList.map f) part.toList =
      Text.holds (address.toList.map f) part.toList := by
  have htick : f '\x60' = '\x60' := by rcases hf with rfl | rfl <;> rfl
  have hpart : ∀ part ∈ tellingWords, '\x60' ∉ part.toList := by decide +kernel
  obtain ⟨hbefore,hreason⟩ := around_tells_nothing r hf hp
  rw [message_toList,List.map_append,List.map_cons,List.map_append,List.map_cons,htick,
    Text.holds_append_cons (hpart part hp),Text.holds_append_cons (hpart part hp),hbefore,hreason,
    Bool.false_or,Bool.or_false]

private theorem status_eq : ExitStatus.ofFailure (badAddress address r) = .ofText address := by
  have hword : ∀ part ∈ tellingWords, Text.holds (badAddress address r).message.toList part.toList =
      Text.holds address.toList part.toList := by
    intro part hp
    have h := holds_message address r (.inl rfl) hp
    rwa [List.map_id,List.map_id] at h
  have hstatus : ExitStatus.ofFailure (badAddress address r) = .ofText (badAddress address r).message := rfl
  rw [hstatus]
  simp only [ExitStatus.ofText,hword _ (show "(401)" ∈ tellingWords by decide),
    hword _ (show "(403)" ∈ tellingWords by decide),hword _ (show "network error" ∈ tellingWords by decide),
    hword _ (show "shape request failed" ∈ tellingWords by decide)]

private theorem ofFailure_eq : Diagnosis.ofFailure (badAddress address r) =
    .ofText (badAddress address r).message := rfl

/-- The diagnosis is the one that the words of the address give, for all that is said. -/
theorem diagnosis_eq : Diagnosis.ofText (badAddress address r).message =
    (Diagnosis.ofText address).about (badAddress address r).message := by
  have hword : ∀ part ∈ tellingWords,
      Text.holds ((badAddress address r).message.toList.map Char.toLower) part.toList =
        Text.holds (address.toList.map Char.toLower) part.toList :=
    fun part hp => holds_message address r (.inr rfl) hp
  simp only [Diagnosis.ofText,hword _ (show "(401)" ∈ tellingWords by decide),
    hword _ (show "(403)" ∈ tellingWords by decide),hword _ (show "unauthorized" ∈ tellingWords by decide),
    hword _ (show "network error" ∈ tellingWords by decide),
    hword _ (show "timed out" ∈ tellingWords by decide)]
  split
  · rfl
  · split <;> rfl

end badAddress

private theorem ofText_ne_usage (s : String) :
    ExitStatus.ofText s ≠ .usage ∧ (Diagnosis.ofText s).code ≠ "CONFIG_INVALID" := by
  refine ⟨?_,code_ofText_ne_settings s⟩
  rcases ExitStatus.ofText_cases s with ⟨_,h⟩ | ⟨_,_,h⟩ | ⟨_,_,h⟩ <;> simp [h]

namespace Console.Environment

variable {env : Environment} {r : UrlRefusal}

private theorem connection_of_badAddress (h : Url.parseSecure env.settings.apiUrl = .error r) :
    env.connection = .error (badAddress env.settings.apiUrl r) := by
  have hapi : env.settings.api = .error (.url env.settings.apiUrl r) := by
    rw [Settings.api,Settings.url,h]
    rfl
  rw [connection,hapi]
  rfl

private theorem openProject_of_badAddress (h : Url.parseSecure env.settings.apiUrl = .error r) (project : Int64) :
    env.openProject project = ExceptT.mk (some (.error (badAddress env.settings.apiUrl r))) := by
  rw [openProject,connection_of_badAddress h]
  rfl

/-- Whatever a command that opens a project would do with it, the command ends with the failure. -/
theorem run_of_badAddress (h : Url.parseSecure env.settings.apiUrl = .error r) {i : Invocation}
    (hi : i.project?.isSome) :
    env.run i = some (env.fail (env.style i.json) "" "" (badAddress env.settings.apiUrl r)) := by
  cases i with
  | watch project table json =>
    rw [run,watch,openProject_of_badAddress h]
    rfl
  | entityList project task json =>
    rw [run,listEntities,openProject_of_badAddress h]
    rfl
  | entitySetStatus project entity status json =>
    rw [run,setStatus,openProject_of_badAddress h]
    rfl
  | eventAdd project task event username comment status json =>
    rw [run,addEvent,openProject_of_badAddress h]
    rfl
  | eventHistory project task json =>
    rw [run,showHistory,openProject_of_badAddress h]
    rfl
  | configShow file json => cases hi
  | configPath json => cases hi

/-- A command that opens a project ends with a bad address before it asks anything of the network. Its exit
status and the code of its message are those that the words of the address alone would have; they never tell of
bad settings. -/
theorem invoke_of_badAddress (h : Url.parseSecure env.settings.apiUrl = .error r) {args : List String}
    {i : Invocation} (hp : Arguments.parse args = .ok i) (hi : i.project?.isSome) :
    let address := env.settings.apiUrl
    let d := Diagnosis.ofText (badAddress address r).message
    (∀ network, { env with network }.invoke args =
      some ⟨.ofText address,"",env.complain (env.style i.json) .error d.code d.message⟩) ∧
    d.code = (Diagnosis.ofText address).code ∧
    ExitStatus.ofText address ≠ .usage ∧ d.code ≠ "CONFIG_INVALID" := by
  intro address d
  have hcode : d.code = (Diagnosis.ofText address).code := by
    rw [← Diagnosis.code_about (badAddress address r).message (Diagnosis.ofText address),
      ← badAddress.diagnosis_eq]
  refine ⟨?_,hcode,(ofText_ne_usage address).1,?_⟩
  · intro network
    have hsame : Url.parseSecure ({ env with network } : Environment).settings.apiUrl = .error r := h
    rw [invoke,hp]
    dsimp only
    rw [run_of_badAddress hsame hi,fail,badAddress.status_eq,badAddress.ofFailure_eq]
    rfl
  · rw [hcode]
    exact (ofText_ne_usage address).2

/-- A pipe, with a file of settings and no network. -/
def withFile (text : String) : Environment where
  home := "/home/mapper"
  read := fun _ => .ok (Text.Utf8.encode text)
  token := none
  stdoutTerminal := false
  stderrTerminal := false
  network := .unreachable
  freshKey := "K1"
  now := .start
  patience := 10

/-- An address may pass for a refusal of the server. -/
theorem invoke_of_badAddress_telling :
    let env := withFile "api_url = \"http://api.example.org/(401)\"\n"
    Url.parseSecure env.settings.apiUrl = .error .insecure ∧
      env.invoke ["event","history","--project","7","--task","1"] = some ⟨.unauthorized,"",
        env.complain .json .error "AUTH_FAILURE" Diagnosis.unauthorized.message⟩ := by
  intro env
  have haddress : Url.parseSecure env.settings.apiUrl = .error .insecure := by decide +kernel
  have hparse : Arguments.parse ["event","history","--project","7","--task","1"] =
      .ok (.eventHistory 7 1 false) := by decide +kernel
  have hstatus : ExitStatus.ofText env.settings.apiUrl = .unauthorized := by decide +kernel
  have hwords : Diagnosis.ofText env.settings.apiUrl = .unauthorized := by decide +kernel
  have hend := (invoke_of_badAddress haddress hparse rfl).1 .unreachable
  rw [hstatus,badAddress.diagnosis_eq,hwords] at hend
  exact ⟨haddress,hend⟩

/-- An address without encryption is reported as a failure of another kind. -/
theorem badAddress_unrecognized :
    let env := withFile "api_url = \"http://api.example.org\"\n"
    Url.parseSecure env.settings.apiUrl = .error .insecure ∧
      env.invoke ["entity","list","--project","7"] = some ⟨.failure,"",
        "\x7b\"error\":\x7b\"code\":\"SYNC_ERROR\",\"message\":\"failed to configure API access: invalid api_url " ++
          "\x60http://api.example.org\x60: api_url must use https (http is allowed only for localhost " ++
          "testing)\"\x7d\x7d\n"⟩ := by
  intro env
  have haddress : Url.parseSecure env.settings.apiUrl = .error .insecure := by decide +kernel
  have hparse : Arguments.parse ["entity","list","--project","7"] = .ok (.entityList 7 none false) := by
    decide +kernel
  have hsame : env.settings.apiUrl = "http://api.example.org" := by decide +kernel
  have hstatus : ExitStatus.ofText "http://api.example.org" = .failure := by decide +kernel
  have hwords : Diagnosis.ofText "http://api.example.org" = .other "http://api.example.org" := by
    decide +kernel
  refine ⟨haddress,?_⟩
  rw [invoke,hparse]
  dsimp only
  rw [run_of_badAddress haddress rfl,hsame,fail,badAddress.status_eq,hstatus,badAddress.ofFailure_eq,
    badAddress.diagnosis_eq,hwords]
  decide +kernel

end Console.Environment
end FieldReplica
