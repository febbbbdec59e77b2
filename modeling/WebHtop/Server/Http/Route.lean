import WebHtop.Common.Models.Snapshot
import WebHtop.Server.Http.HttpRequest
import WebHtop.Server.OutputQueue

/-!
# Routes

`Reactor::Route`. What it reads besides the request is an input: the latest generation, with whether
it is younger than three sampling intervals, and the two texts of Diagnostics.
-/

namespace WebHtop.Server.Http

open WebHtop.Lib WebHtop.Common

/-- A text that a response can carry. -/
abbrev Page := { bytes : Bytes // bytes.length < 2 ^ 62 }

/-- What Route reads of the latest generation. -/
structure Latest where
  recent : Bool
  collectors : List SampleStatus
  json : Page
  processesJson : Page

structure Pages where
  latest : Option Latest
  diagnostics : Page
  exporter : Page

/-- A collector that `/ready` asks for, and that is not in order. -/
def degraded (c : SampleStatus) : Bool :=
  (c.name = lit "cpu" || c.name = lit "memory" || c.name = lit "processes") && c.state ≠ lit "ok"

/-- The answer to `/ready`. -/
def ready (latest : Option Latest) : Bool :=
  latest.any fun latest => latest.recent && !latest.collectors.any degraded

/-- Reactor::Route. -/
def route (pages : Pages) (text : Bytes) : Bytes :=
  let request := parseHttpRequest text
  if request.status ≠ 200 then
    httpResponse request.status (lit "\x7b\"error\":\"invalid_request\"\x7d")
  else if request.target = lit "/health" then
    httpResponse 200 (lit "\x7b\"status\":\"alive\",\"protocol_version\":2\x7d")
  else if request.target = lit "/diagnostics" then httpResponse 200 pages.diagnostics.val
  else if request.target = lit "/exporter" then
    httpResponse 200 pages.exporter.val (lit "text/plain; version=0.0.4")
  else if request.target = lit "/ready" then
    if ready pages.latest then httpResponse 200 (lit "\x7b\"status\":\"ready\"\x7d")
    else httpResponse 503 (lit "\x7b\"status\":\"degraded\"\x7d")
  else if request.target ≠ lit "/metrics" ∧ request.target ≠ lit "/processes" then
    httpResponse 404 (lit "\x7b\"error\":\"not_found\"\x7d")
  else
    match pages.latest with
    | none => httpResponse 503 (lit "\x7b\"error\":\"warming_up\"\x7d")
    | some latest =>
      httpResponse 200
        (if request.target = lit "/metrics" then latest.json.val else latest.processesJson.val)

/-! ## Sizes -/

theorem length_reason_le (status : Nat) : (reason status).length ≤ 31 := by
  unfold reason
  split <;> decide

/-- The head of a response is short, and every response has one. -/
theorem length_httpResponse {status : Nat} (hstatus : status < 1000) {body : Bytes}
    (hbody : body.length < 2 ^ 63) {type : Bytes} (htype : type.length ≤ 40) :
    (httpResponse status body type).length ≤ body.length + 300 ∧
      httpResponse status body type ≠ [] := by
  have hcode : (Decimal.numeral status).length ≤ 3 :=
    Decimal.length_numeral_le (by decide) (by omega)
  have hlength : (Decimal.numeral body.length).length ≤ 19 :=
    Decimal.length_numeral_le (by decide) (by omega)
  have hreason := length_reason_le status
  have hallow : (if status = 405 then lit "Allow: GET\r\n" else []).length ≤ 12 := by
    split <;> decide
  have hparts : (lit "HTTP/1.1 ").length = 9 ∧ (lit " ").length = 1 ∧
      (lit "\r\nContent-Type: ").length = 16 ∧ (lit "\r\nContent-Length: ").length = 18 ∧
      (lit "\r\nConnection: close\r\nCache-Control: no-store\r\n").length = 46 ∧
      (lit "\r\n").length = 2 := by decide
  obtain ⟨h1, h2, h3, h4, h5, h6⟩ := hparts
  constructor
  · simp only [httpResponse, List.length_append, h1, h2, h3, h4, h5, h6]
    omega
  · intro hnil
    have hzero := congrArg List.length hnil
    simp only [httpResponse, List.length_append, h1] at hzero
    simp at hzero

theorem checkHeaders_status (target version : Bytes) (headers : Table Bytes Bytes) :
    (checkHeaders target version headers).status < 1000 := by
  unfold checkHeaders
  split_ifs <;> simp [bad]

/-- Every status of the parser has three digits. -/
theorem parse_status (text : Bytes) : (parseHttpRequest text).status < 1000 := by
  have hbad : ∀ status, status < 1000 → (bad status).status < 1000 := fun _ h => h
  unfold parseHttpRequest
  split
  · exact hbad 400 (by decide)
  split
  · exact hbad 400 (by decide)
  split
  · exact hbad 431 (by decide)
  split
  · exact hbad 400 (by decide)
  split
  · exact hbad 400 (by decide)
  split
  · exact hbad 405 (by decide)
  split
  · exact hbad 505 (by decide)
  split
  · exact hbad 400 (by decide)
  split
  · exact hbad 400 (by decide)
  split
  · exact hbad 400 (by decide)
  · exact checkHeaders_status _ _ _

/-- No text that Route can send is longer. -/
structure Pages.Within (n : Nat) (pages : Pages) : Prop where
  diagnostics : pages.diagnostics.val.length ≤ n
  exporter : pages.exporter.val.length ≤ n
  latest : ∀ latest ∈ pages.latest, latest.json.val.length ≤ n ∧ latest.processesJson.val.length ≤ n

theorem Pages.within (pages : Pages) : pages.Within (2 ^ 62 - 1) := by
  have h := pages.diagnostics.property
  have h' := pages.exporter.property
  refine ⟨by omega, by omega, fun latest _ => ?_⟩
  have hjson := latest.json.property
  have hprocesses := latest.processesJson.property
  exact ⟨by omega, by omega⟩

/-- A response whose head is short. -/
def Response (n : Nat) (bytes : Bytes) : Prop := bytes.length ≤ n + 400 ∧ bytes ≠ []

theorem httpResponse_response {n status : Nat} (hn : n < 2 ^ 62) (hstatus : status < 1000)
    {body : Bytes} (hbody : body.length ≤ n + 100) {type : Bytes} (htype : type.length ≤ 40) :
    Response n (httpResponse status body type) := by
  have hlt : body.length < 2 ^ 63 := by omega
  obtain ⟨hlength, hne⟩ := length_httpResponse hstatus hlt htype
  exact ⟨by omega, hne⟩

/-- Route answers every text. -/
theorem route_response {n : Nat} (hn : n < 2 ^ 62) {pages : Pages} (hpages : pages.Within n)
    (text : Bytes) : Response n (route pages text) := by
  have hjson : (lit "application/json").length ≤ 40 := by decide
  have hfixed : ∀ {status : Nat} {body : Bytes}, status < 1000 → body.length ≤ 100 →
      Response n (httpResponse status body) := fun hstatus hbody =>
    httpResponse_response hn hstatus (by omega) hjson
  unfold route
  simp only
  split
  · exact hfixed (parse_status text) (by decide)
  split
  · exact hfixed (by decide) (by decide)
  split
  · have := hpages.diagnostics
    exact httpResponse_response hn (by decide) (by omega) hjson
  split
  · have := hpages.exporter
    exact httpResponse_response hn (by decide) (by omega) (by decide)
  split
  · split
    · exact hfixed (by decide) (by decide)
    · exact hfixed (by decide) (by decide)
  split
  · exact hfixed (by decide) (by decide)
  · cases hlatest : pages.latest with
    | none => exact hfixed (by decide) (by decide)
    | some latest =>
      obtain ⟨hmetrics, hprocesses⟩ := hpages.latest latest hlatest
      refine httpResponse_response hn (by decide) ?_ hjson
      split <;> omega

theorem route_length_lt (pages : Pages) (text : Bytes) : (route pages text).length < 2 ^ 63 := by
  obtain ⟨hlength, -⟩ := route_response (by decide) pages.within text
  omega

theorem route_ne_nil (pages : Pages) (text : Bytes) : route pages text ≠ [] :=
  (route_response (by decide) pages.within text).2

/-- The string of Route, as Enqueue gets it. -/
def respond (pages : Pages) (text : Bytes) : Buffer :=
  { bytes := route pages text, size_lt := route_length_lt pages text }

theorem headerLimit_response :
    Response 0 (httpResponse 431 (lit "\x7b\"error\":\"header_limit\"\x7d")) :=
  httpResponse_response (by decide) (by decide) (by decide) (by decide)

/-- The response to a request of more than 8192 bytes. -/
def headerLimit : Buffer :=
  { bytes := httpResponse 431 (lit "\x7b\"error\":\"header_limit\"\x7d")
    size_lt := lt_of_le_of_lt headerLimit_response.1 (by decide) }

end WebHtop.Server.Http
