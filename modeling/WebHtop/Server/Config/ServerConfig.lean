import WebHtop.Server.Collectors.MetricsCollector

/-!
# The command line of the server

`ServerConfig::FromArgs` and `Validate` of server/config/server_config.cpp: two variables of the
environment, then the arguments from left to right, then the checks. Every number is read as an
`unsigned`. An exception is its message.
-/

namespace WebHtop.Server.Config

open WebHtop.Lib WebHtop.Common
open WebHtop.Server.Collectors (parseUnsigned)

structure ServerConfig where
  bindAddress : Bytes := lit "127.0.0.1"
  port : Nat := 8080
  streamingPort : Nat := 9999
  pollInterval : Nat := 1000
  requestTimeout : Nat := 3000
  writeTimeout : Nat := 5000
  maxClients : Nat := 256
  maxProcesses : Nat := 1024
  procRoot : Bytes := lit "/proc"
  sysRoot : Bytes := lit "/sys"
  mountPath : Bytes := lit "/"
  cgroupPath : Bytes := []
  includeLoopback : Bool := false
deriving DecidableEq

def number (value : Bytes) : Except Bytes Nat :=
  match parseUnsigned (2 ^ 32) value with
  | some n => .ok n
  | none => .error (lit "invalid unsigned integer: " ++ value)

theorem number_ok {value : Bytes} {n : Nat} : number value = .ok n ↔
    (value ≠ [] ∧ ∀ c ∈ value, Decimal.isDigit c = true) ∧ Decimal.value value = n ∧ n < 2 ^ 32 := by
  rw [number, parseUnsigned]
  split_ifs with h
  · obtain ⟨hne, hdigits, hlt⟩ := h
    rw [Except.ok.injEq]
    exact ⟨fun heq => ⟨⟨hne, List.all_eq_true.mp hdigits⟩, heq, heq ▸ hlt⟩, fun heq => heq.2.1⟩
  · simp only [false_iff]
    rintro ⟨⟨hne, hdigits⟩, rfl, hlt⟩
    exact h ⟨hne, List.all_eq_true.mpr hdigits, hlt⟩

/-- The options with a value. -/
def setOption (c : ServerConfig) (key value : Bytes) : Except Bytes ServerConfig :=
  if key = lit "--bind" then .ok { c with bindAddress := value }
  else if key = lit "--http-port" then (number value).map fun n => { c with port := n }
  else if key = lit "--stream-port" then (number value).map fun n => { c with streamingPort := n }
  else if key = lit "--interval-ms" then (number value).map fun n => { c with pollInterval := n }
  else if key = lit "--request-timeout-ms" then
    (number value).map fun n => { c with requestTimeout := n }
  else if key = lit "--write-timeout-ms" then
    (number value).map fun n => { c with writeTimeout := n }
  else if key = lit "--max-clients" then (number value).map fun n => { c with maxClients := n }
  else if key = lit "--max-processes" then (number value).map fun n => { c with maxProcesses := n }
  else if key = lit "--proc-root" then .ok { c with procRoot := value }
  else if key = lit "--sys-root" then .ok { c with sysRoot := value }
  else if key = lit "--mount" then .ok { c with mountPath := value }
  else if key = lit "--cgroup" then .ok { c with cgroupPath := value }
  else .error (lit "unknown option: " ++ key)

/-- The loop over the arguments behind the name of the program. -/
def readArgs (c : ServerConfig) : List Bytes → Except Bytes ServerConfig
  | [] => .ok c
  | key :: rest =>
    if key = lit "--include-loopback" then readArgs { c with includeLoopback := true } rest
    else
      match rest with
      | [] => .error (lit "missing value for " ++ key)
      | value :: rest => (setOption c key value).bind fun c => readArgs c rest

/-- `WEB_HTOP_HTTP_PORT` and `WEB_HTOP_STREAMING_PORT`. -/
def readEnvironment (http stream : Option Bytes) : Except Bytes ServerConfig := do
  let port ← http.elim (.ok ({} : ServerConfig).port) number
  let streamingPort ← stream.elim (.ok ({} : ServerConfig).streamingPort) number
  return { port, streamingPort }

def validate (c : ServerConfig) : Except Bytes Unit :=
  if c.port = 0 ∨ c.port > 65535 ∨ c.streamingPort = 0 ∨ c.streamingPort > 65535 ∨
      c.port = c.streamingPort then
    .error (lit "HTTP and stream ports must be distinct, in 1..65535")
  else if c.pollInterval < 100 ∨ c.pollInterval > 60000 then
    .error (lit "interval must be 100..60000 ms")
  else if c.requestTimeout < 100 ∨ c.requestTimeout > 60000 ∨ c.writeTimeout < 100 ∨
      c.writeTimeout > 60000 then
    .error (lit "timeouts must be 100..60000 ms")
  else if c.maxClients < 1 ∨ c.maxClients > 4096 ∨ c.maxProcesses < 1 ∨ c.maxProcesses > 10000 then
    .error (lit "max-clients must be 1..4096; max-processes 1..10000")
  else if c.bindAddress = [] ∨ c.procRoot = [] ∨ c.sysRoot = [] ∨ c.mountPath = [] then
    .error (lit "paths and bind address cannot be empty")
  else .ok ()

def fromArgs (http stream : Option Bytes) (args : List Bytes) : Except Bytes ServerConfig := do
  let c ← readEnvironment http stream
  let c ← readArgs c args
  validate c
  return c

/-! ## Options by name -/

inductive TextOption
  | bind | procRoot | sysRoot | mount | cgroup
deriving DecidableEq

inductive NumberOption
  | httpPort | streamPort | intervalMs | requestTimeoutMs | writeTimeoutMs | maxClients | maxProcesses
deriving DecidableEq

def TextOption.name : TextOption → Bytes
  | bind => lit "--bind"
  | procRoot => lit "--proc-root"
  | sysRoot => lit "--sys-root"
  | mount => lit "--mount"
  | cgroup => lit "--cgroup"

def NumberOption.name : NumberOption → Bytes
  | httpPort => lit "--http-port"
  | streamPort => lit "--stream-port"
  | intervalMs => lit "--interval-ms"
  | requestTimeoutMs => lit "--request-timeout-ms"
  | writeTimeoutMs => lit "--write-timeout-ms"
  | maxClients => lit "--max-clients"
  | maxProcesses => lit "--max-processes"

namespace ServerConfig

def text (c : ServerConfig) : TextOption → Bytes
  | .bind => c.bindAddress
  | .procRoot => c.procRoot
  | .sysRoot => c.sysRoot
  | .mount => c.mountPath
  | .cgroup => c.cgroupPath

def number (c : ServerConfig) : NumberOption → Nat
  | .httpPort => c.port
  | .streamPort => c.streamingPort
  | .intervalMs => c.pollInterval
  | .requestTimeoutMs => c.requestTimeout
  | .writeTimeoutMs => c.writeTimeout
  | .maxClients => c.maxClients
  | .maxProcesses => c.maxProcesses

def withText (c : ServerConfig) (value : Bytes) : TextOption → ServerConfig
  | .bind => { c with bindAddress := value }
  | .procRoot => { c with procRoot := value }
  | .sysRoot => { c with sysRoot := value }
  | .mount => { c with mountPath := value }
  | .cgroup => { c with cgroupPath := value }

def withNumber (c : ServerConfig) (n : Nat) : NumberOption → ServerConfig
  | .httpPort => { c with port := n }
  | .streamPort => { c with streamingPort := n }
  | .intervalMs => { c with pollInterval := n }
  | .requestTimeoutMs => { c with requestTimeout := n }
  | .writeTimeoutMs => { c with writeTimeout := n }
  | .maxClients => { c with maxClients := n }
  | .maxProcesses => { c with maxProcesses := n }

variable (c : ServerConfig)

@[simp] theorem text_withText (value : Bytes) (o o' : TextOption) :
    (c.withText value o).text o' = if o = o' then value else c.text o' := by
  cases o <;> cases o' <;> rfl

@[simp] theorem number_withText (value : Bytes) (o : TextOption) (o' : NumberOption) :
    (c.withText value o).number o' = c.number o' := by
  cases o <;> rfl

@[simp] theorem includeLoopback_withText (value : Bytes) (o : TextOption) :
    (c.withText value o).includeLoopback = c.includeLoopback := by
  cases o <;> rfl

@[simp] theorem text_withNumber (n : Nat) (o : NumberOption) (o' : TextOption) :
    (c.withNumber n o).text o' = c.text o' := by
  cases o <;> rfl

@[simp] theorem number_withNumber (n : Nat) (o o' : NumberOption) :
    (c.withNumber n o).number o' = if o = o' then n else c.number o' := by
  cases o <;> cases o' <;> rfl

@[simp] theorem includeLoopback_withNumber (n : Nat) (o : NumberOption) :
    (c.withNumber n o).includeLoopback = c.includeLoopback := by
  cases o <;> rfl

/-- The options are the whole configuration. -/
theorem eq_of_options {c c' : ServerConfig} (htext : ∀ o, c.text o = c'.text o)
    (hnumber : ∀ o, c.number o = c'.number o) (hloopback : c.includeLoopback = c'.includeLoopback) :
    c = c' := by
  have hbind : c.bindAddress = c'.bindAddress := htext .bind
  have hproc : c.procRoot = c'.procRoot := htext .procRoot
  have hsys : c.sysRoot = c'.sysRoot := htext .sysRoot
  have hmount : c.mountPath = c'.mountPath := htext .mount
  have hcgroup : c.cgroupPath = c'.cgroupPath := htext .cgroup
  have hport : c.port = c'.port := hnumber .httpPort
  have hstream : c.streamingPort = c'.streamingPort := hnumber .streamPort
  have hpoll : c.pollInterval = c'.pollInterval := hnumber .intervalMs
  have hrequest : c.requestTimeout = c'.requestTimeout := hnumber .requestTimeoutMs
  have hwrite : c.writeTimeout = c'.writeTimeout := hnumber .writeTimeoutMs
  have hclients : c.maxClients = c'.maxClients := hnumber .maxClients
  have hprocesses : c.maxProcesses = c'.maxProcesses := hnumber .maxProcesses
  obtain ⟨⟩ := c
  obtain ⟨⟩ := c'
  simp_all

end ServerConfig

theorem setOption_text (c : ServerConfig) (o : TextOption) (value : Bytes) :
    setOption c o.name value = .ok (c.withText value o) := by
  cases o <;> rfl

theorem setOption_number (c : ServerConfig) (o : NumberOption) (value : Bytes) :
    setOption c o.name value = (number value).map fun n => c.withNumber n o := by
  cases o <;> rfl

theorem setOption_unknown (c : ServerConfig) {key : Bytes} (htext : ∀ o : TextOption, key ≠ o.name)
    (hnumber : ∀ o : NumberOption, key ≠ o.name) (value : Bytes) :
    setOption c key value = .error (lit "unknown option: " ++ key) := by
  exact (if_neg (htext .bind)).trans <| (if_neg (hnumber .httpPort)).trans <|
    (if_neg (hnumber .streamPort)).trans <| (if_neg (hnumber .intervalMs)).trans <|
    (if_neg (hnumber .requestTimeoutMs)).trans <| (if_neg (hnumber .writeTimeoutMs)).trans <|
    (if_neg (hnumber .maxClients)).trans <| (if_neg (hnumber .maxProcesses)).trans <|
    (if_neg (htext .procRoot)).trans <| (if_neg (htext .sysRoot)).trans <|
    (if_neg (htext .mount)).trans <| if_neg (htext .cgroup)

/-! ## What a command line says -/

/-- Arguments as options with their values, and whether the loopback is included. -/
inductive Reads : List Bytes → List (Bytes × Bytes) → Bool → Prop
  | nil : Reads [] [] false
  | loopback {args : List Bytes} {pairs : List (Bytes × Bytes)} {b : Bool} (h : Reads args pairs b) :
      Reads (lit "--include-loopback" :: args) pairs true
  | option {key value : Bytes} {args : List Bytes} {pairs : List (Bytes × Bytes)} {b : Bool}
      (hkey : key ≠ lit "--include-loopback") (h : Reads args pairs b) :
      Reads (key :: value :: args) ((key, value) :: pairs) b

/-- An option that there is, with a value that it takes. -/
def Known (e : Bytes × Bytes) : Prop :=
  (∃ o : TextOption, e.1 = o.name) ∨
    ∃ o : NumberOption, ∃ n, e.1 = o.name ∧ number e.2 = .ok n

/-- The value of the last option of that name. -/
def last (name : Bytes) : List (Bytes × Bytes) → Option Bytes
  | [] => none
  | (key, value) :: pairs => (last name pairs).or (if key = name then some value else none)

theorem name_ne_name (o : TextOption) (o' : NumberOption) : o.name ≠ o'.name := by
  cases o <;> cases o' <;> decide

theorem TextOption.name_inj {o o' : TextOption} : o.name = o'.name ↔ o = o' := by
  cases o <;> cases o' <;> decide

theorem NumberOption.name_inj {o o' : NumberOption} : o.name = o'.name ↔ o = o' := by
  cases o <;> cases o' <;> decide

theorem TextOption.name_ne (o : TextOption) : o.name ≠ lit "--include-loopback" := by
  cases o <;> decide

theorem NumberOption.name_ne (o : NumberOption) : o.name ≠ lit "--include-loopback" := by
  cases o <;> decide

/-- What options make of a configuration. -/
structure Follows (c : ServerConfig) (pairs : List (Bytes × Bytes)) (b : Bool) (c' : ServerConfig) :
    Prop where
  text : ∀ o : TextOption, c'.text o = (last o.name pairs).getD (c.text o)
  number : ∀ o : NumberOption, (last o.name pairs).elim (c'.number o = c.number o)
    fun value => Config.number value = .ok (c'.number o)
  includeLoopback : c'.includeLoopback = (b || c.includeLoopback)

theorem Follows.unique {c c' c'' : ServerConfig} {pairs : List (Bytes × Bytes)} {b : Bool}
    (h : Follows c pairs b c') (h' : Follows c pairs b c'') : c' = c'' := by
  apply ServerConfig.eq_of_options
  · exact fun o => (h.text o).trans (h'.text o).symm
  · intro o
    have hnumber := h.number o
    have hnumber' := h'.number o
    cases hlast : last o.name pairs with
    | none =>
      rw [hlast] at hnumber hnumber'
      exact hnumber.trans hnumber'.symm
    | some value =>
      rw [hlast] at hnumber hnumber'
      exact Except.ok.inj (hnumber.symm.trans hnumber')
  · exact h.includeLoopback.trans h'.includeLoopback.symm

theorem last_cons_ne {name key value : Bytes} {pairs : List (Bytes × Bytes)} (h : key ≠ name) :
    last name ((key, value) :: pairs) = last name pairs := by
  rw [last, if_neg h, Option.or_none]

theorem last_cons_self {name value : Bytes} {pairs : List (Bytes × Bytes)} :
    last name ((name, value) :: pairs) = some ((last name pairs).getD value) := by
  rw [last, if_pos rfl]
  cases last name pairs <;> rfl

theorem follows_text {c c' : ServerConfig} {o : TextOption} {value : Bytes}
    {pairs : List (Bytes × Bytes)} {b : Bool} :
    Follows (c.withText value o) pairs b c' ↔ Follows c ((o.name, value) :: pairs) b c' := by
  have htext (o' : TextOption) : (last o'.name ((o.name, value) :: pairs)).getD (c.text o') =
      (last o'.name pairs).getD ((c.withText value o).text o') := by
    by_cases heq : o = o'
    · subst heq
      simp [last_cons_self]
    · rw [last_cons_ne (mt TextOption.name_inj.mp heq), ServerConfig.text_withText, if_neg heq]
  have hnumber (o' : NumberOption) : last o'.name ((o.name, value) :: pairs) = last o'.name pairs :=
    last_cons_ne (name_ne_name o o')
  constructor
  · intro h
    refine ⟨fun o' => (h.text o').trans (htext o').symm, fun o' => ?_, ?_⟩
    · simpa [hnumber] using h.number o'
    · simpa using h.includeLoopback
  · intro h
    refine ⟨fun o' => (h.text o').trans (htext o'), fun o' => ?_, ?_⟩
    · simpa [hnumber] using h.number o'
    · simpa using h.includeLoopback

theorem follows_number {c c' : ServerConfig} {o : NumberOption} {value : Bytes} {n : Nat}
    (hn : number value = .ok n) {pairs : List (Bytes × Bytes)} {b : Bool} :
    Follows (c.withNumber n o) pairs b c' ↔ Follows c ((o.name, value) :: pairs) b c' := by
  have htext (o' : TextOption) : last o'.name ((o.name, value) :: pairs) = last o'.name pairs :=
    last_cons_ne (name_ne_name o' o).symm
  have hnumber (o' : NumberOption) :
      (last o'.name ((o.name, value) :: pairs)).elim (c'.number o' = c.number o')
        (fun value => Config.number value = .ok (c'.number o')) ↔
      (last o'.name pairs).elim (c'.number o' = (c.withNumber n o).number o')
        fun value => Config.number value = .ok (c'.number o') := by
    by_cases heq : o = o'
    · subst heq
      rw [last_cons_self]
      cases last o.name pairs <;> simp [hn, eq_comm]
    · rw [last_cons_ne (mt NumberOption.name_inj.mp heq), ServerConfig.number_withNumber,
        if_neg heq]
  constructor
  · intro h
    refine ⟨fun o' => ?_, fun o' => (hnumber o').mpr (h.number o'), ?_⟩
    · simpa [htext] using h.text o'
    · simpa using h.includeLoopback
  · intro h
    refine ⟨fun o' => ?_, fun o' => (hnumber o').mp (h.number o'), ?_⟩
    · simpa [htext] using h.text o'
    · simpa using h.includeLoopback

/-- One option with its value in front of the others. -/
theorem setOption_ok {c c' : ServerConfig} {e : Bytes × Bytes} (h : setOption c e.1 e.2 = .ok c') :
    Known e ∧ ∀ pairs b c'', Follows c' pairs b c'' ↔ Follows c (e :: pairs) b c'' := by
  obtain ⟨key, value⟩ := e
  by_cases htext : ∃ o : TextOption, key = o.name
  · obtain ⟨o, rfl⟩ := htext
    obtain rfl : c.withText value o = c' := Except.ok.inj ((setOption_text c o value).symm.trans h)
    exact ⟨.inl ⟨o, rfl⟩, fun _ _ _ => follows_text⟩
  by_cases hnumber : ∃ o : NumberOption, key = o.name
  · obtain ⟨o, rfl⟩ := hnumber
    have hmap := (setOption_number c o value).symm.trans h
    cases hn : number value with
    | error _ =>
      rw [hn] at hmap
      cases hmap
    | ok n =>
      rw [hn] at hmap
      obtain rfl : c.withNumber n o = c' := Except.ok.inj hmap
      exact ⟨.inr ⟨o, n, rfl, hn⟩, fun _ _ _ => follows_number hn⟩
  · have hunknown := setOption_unknown c (fun o ho => htext ⟨o, ho⟩) (fun o ho => hnumber ⟨o, ho⟩) value
    cases hunknown.symm.trans h

theorem Known.setOption {e : Bytes × Bytes} (h : Known e) (c : ServerConfig) :
    ∃ c', setOption c e.1 e.2 = .ok c' := by
  obtain ⟨key, value⟩ := e
  rcases h with ⟨o, rfl⟩ | ⟨o, n, rfl, hn⟩
  · exact ⟨_, setOption_text c o value⟩
  · refine ⟨c.withNumber n o, ?_⟩
    rw [setOption_number, hn]
    rfl

theorem follows_nil {c c' : ServerConfig} : Follows c [] false c' ↔ c = c' := by
  constructor
  · intro h
    exact ServerConfig.eq_of_options (fun o => (h.text o).symm) (fun o => (h.number o).symm)
      h.includeLoopback.symm
  · rintro rfl
    exact ⟨fun _ => rfl, fun _ => rfl, rfl⟩

theorem readArgs_loopback (c : ServerConfig) (args : List Bytes) :
    readArgs c (lit "--include-loopback" :: args) = readArgs { c with includeLoopback := true } args := by
  rw [readArgs.eq_def]
  exact if_pos rfl

/-- The loop takes the command lines whose options are all known, and the last of each counts. -/
theorem readArgs_ok {c c' : ServerConfig} {args : List Bytes} : readArgs c args = .ok c' ↔
    ∃ pairs b, Reads args pairs b ∧ (∀ e ∈ pairs, Known e) ∧ Follows c pairs b c' := by
  induction c, args using readArgs.induct with
  | case1 c =>
    rw [readArgs, Except.ok.injEq]
    constructor
    · rintro rfl
      exact ⟨[], false, .nil, by simp, follows_nil.mpr rfl⟩
    · rintro ⟨pairs, b, hreads, -, hfollows⟩
      cases hreads
      exact follows_nil.mp hfollows
  | case2 c rest ih =>
    rw [readArgs_loopback, ih]
    constructor
    · intro ⟨pairs, b, hreads, hknown, htext, hnumber, hloopback⟩
      exact ⟨pairs, true, hreads.loopback, hknown, htext, hnumber, by simp [hloopback]⟩
    · intro ⟨pairs, b, hreads, hknown, htext, hnumber, hloopback⟩
      cases hreads with
      | loopback h => exact ⟨pairs, _, h, hknown, htext, hnumber, by simp [hloopback]⟩
      | option hne => exact absurd rfl hne
  | case3 c key hkey =>
    rw [readArgs, if_neg hkey]
    refine iff_of_false nofun ?_
    rintro ⟨pairs, b, hreads, -⟩
    cases hreads
    exact hkey rfl
  | case4 c key hkey value rest ih =>
    rw [readArgs, if_neg hkey]
    constructor
    · intro h
      cases hset : setOption c key value with
      | error _ =>
        simp only [hset] at h
        cases h
      | ok d =>
        simp only [hset] at h
        obtain ⟨hhead, hcons⟩ := setOption_ok (e := (key, value)) hset
        obtain ⟨pairs, b, hreads, hknown, hfollows⟩ := (ih d).mp h
        exact ⟨(key, value) :: pairs, b, hreads.option hkey, List.forall_mem_cons.mpr ⟨hhead, hknown⟩,
          (hcons _ _ _).mp hfollows⟩
    · intro ⟨pairs, b, hreads, hknown, hfollows⟩
      cases hreads with
      | loopback => exact absurd rfl hkey
      | option _ hreads =>
        obtain ⟨hhead, htail⟩ := List.forall_mem_cons.mp hknown
        obtain ⟨d, hset⟩ := hhead.setOption c
        have hcons := (setOption_ok hset).2
        simp only [hset]
        exact (ih d).mpr ⟨_, _, hreads, htail, (hcons _ _ _).mpr hfollows⟩

/-! ## Command lines that are refused -/

/-- An option that is not one of the server's, or a value that is not a number. -/
def Refused (e : Bytes × Bytes) (m : Bytes) : Prop :=
  (∃ o : NumberOption, e.1 = o.name ∧ number e.2 = .error m) ∨
    (∀ o : TextOption, e.1 ≠ o.name) ∧ (∀ o : NumberOption, e.1 ≠ o.name) ∧
      m = lit "unknown option: " ++ e.1

/-- Arguments at which the loop throws. -/
inductive Fault : List Bytes → Bytes → Prop
  | missing {key : Bytes} (hkey : key ≠ lit "--include-loopback") :
      Fault [key] (lit "missing value for " ++ key)
  | refused {key value m : Bytes} (hkey : key ≠ lit "--include-loopback") (args : List Bytes)
      (h : Refused (key, value) m) : Fault (key :: value :: args) m

theorem setOption_error {c : ServerConfig} {e : Bytes × Bytes} {m : Bytes} :
    setOption c e.1 e.2 = .error m ↔ Refused e m := by
  obtain ⟨key, value⟩ := e
  constructor
  · intro h
    by_cases htext : ∃ o : TextOption, key = o.name
    · obtain ⟨o, rfl⟩ := htext
      cases (setOption_text c o value).symm.trans h
    by_cases hnumber : ∃ o : NumberOption, key = o.name
    · obtain ⟨o, rfl⟩ := hnumber
      have hmap := (setOption_number c o value).symm.trans h
      cases hn : number value with
      | ok _ =>
        rw [hn] at hmap
        cases hmap
      | error _ =>
        rw [hn] at hmap
        cases hmap
        exact .inl ⟨o, rfl, hn⟩
    · have htext' (o : TextOption) : key ≠ o.name := fun ho => htext ⟨o, ho⟩
      have hnumber' (o : NumberOption) : key ≠ o.name := fun ho => hnumber ⟨o, ho⟩
      have hunknown := (setOption_unknown c htext' hnumber' value).symm.trans h
      exact .inr ⟨htext', hnumber', (Except.error.inj hunknown).symm⟩
  · rintro (⟨o, rfl, hn⟩ | ⟨htext, hnumber, rfl⟩)
    · rw [setOption_number, hn]
      rfl
    · exact setOption_unknown c htext hnumber value

/-- The loop reports the first argument that it cannot take, whatever stands behind it. -/
theorem readArgs_error {c : ServerConfig} {args : List Bytes} {m : Bytes} :
    readArgs c args = .error m ↔ ∃ front pairs b rest, args = front ++ rest ∧
      Reads front pairs b ∧ (∀ e ∈ pairs, Known e) ∧ Fault rest m := by
  induction c, args using readArgs.induct with
  | case1 c =>
    refine iff_of_false nofun ?_
    rintro ⟨front, pairs, b, rest, heq, -, -, hfault⟩
    obtain ⟨-, rfl⟩ := List.append_eq_nil_iff.mp heq.symm
    cases hfault
  | case2 c rest ih =>
    rw [readArgs_loopback, ih]
    constructor
    · rintro ⟨front, pairs, b, rest, rfl, hreads, hknown, hfault⟩
      exact ⟨_ :: front, pairs, true, rest, rfl, hreads.loopback, hknown, hfault⟩
    · intro ⟨front, pairs, b, rest, heq, hreads, hknown, hfault⟩
      cases hreads with
      | nil =>
        subst heq
        cases hfault with
        | missing hkey => exact absurd rfl hkey
        | refused hkey => exact absurd rfl hkey
      | loopback hreads => exact ⟨_, pairs, _, rest, (List.cons.inj heq).2, hreads, hknown, hfault⟩
      | option hkey => exact absurd (List.cons.inj heq).1.symm hkey
  | case3 c key hkey =>
    rw [readArgs, if_neg hkey, Except.error.injEq]
    constructor
    · rintro rfl
      exact ⟨[], [], false, [key], rfl, .nil, by simp, .missing hkey⟩
    · rintro ⟨front, pairs, b, rest, heq, hreads, -, hfault⟩
      cases hreads with
      | nil =>
        subst heq
        cases hfault
        rfl
      | loopback => exact absurd (List.cons.inj heq).1 hkey
      | option => cases (List.cons.inj heq).2
  | case4 c key hkey value rest ih =>
    rw [readArgs, if_neg hkey]
    cases hset : setOption c key value with
    | error m' =>
      change (Except.error m' : Except Bytes ServerConfig) = .error m ↔ _
      rw [Except.error.injEq]
      have hrefused := setOption_error (e := (key, value)).mp hset
      constructor
      · rintro rfl
        exact ⟨[], [], false, _, rfl, .nil, by simp, .refused hkey rest hrefused⟩
      · intro ⟨front, pairs, b, rest', heq, hreads, hknown, hfault⟩
        cases hreads with
        | nil =>
          subst heq
          cases hfault with
          | refused _ _ h => exact Except.error.inj (hset.symm.trans (setOption_error.mpr h))
        | loopback => exact absurd (List.cons.inj heq).1 hkey
        | option _ hreads =>
          obtain ⟨rfl, htail⟩ := List.cons.inj heq
          obtain ⟨rfl, -⟩ := List.cons.inj htail
          obtain ⟨d, hd⟩ := (hknown _ List.mem_cons_self).setOption c
          cases hset.symm.trans hd
    | ok d =>
      change readArgs d rest = .error m ↔ _
      rw [ih d]
      have hhead := (setOption_ok (e := (key, value)) hset).1
      constructor
      · rintro ⟨front, pairs, b, rest, rfl, hreads, hknown, hfault⟩
        exact ⟨key :: value :: front, _, b, rest, rfl, hreads.option hkey,
          List.forall_mem_cons.mpr ⟨hhead, hknown⟩, hfault⟩
      · intro ⟨front, pairs, b, rest', heq, hreads, hknown, hfault⟩
        cases hreads with
        | nil =>
          subst heq
          cases hfault with
          | refused _ _ h => cases hset.symm.trans (setOption_error.mpr h)
        | loopback => exact absurd (List.cons.inj heq).1 hkey
        | option _ hreads =>
          obtain ⟨rfl, htail⟩ := List.cons.inj heq
          obtain ⟨rfl, hargs⟩ := List.cons.inj htail
          exact ⟨_, _, b, rest', hargs, hreads, (List.forall_mem_cons.mp hknown).2, hfault⟩

/-- Every check of `Validate`. -/
structure ServerConfig.Valid (c : ServerConfig) : Prop where
  ports : (0 < c.port ∧ c.port ≤ 65535) ∧ (0 < c.streamingPort ∧ c.streamingPort ≤ 65535) ∧
    c.port ≠ c.streamingPort
  pollInterval : 100 ≤ c.pollInterval ∧ c.pollInterval ≤ 60000
  requestTimeout : 100 ≤ c.requestTimeout ∧ c.requestTimeout ≤ 60000
  writeTimeout : 100 ≤ c.writeTimeout ∧ c.writeTimeout ≤ 60000
  maxClients : 1 ≤ c.maxClients ∧ c.maxClients ≤ 4096
  maxProcesses : 1 ≤ c.maxProcesses ∧ c.maxProcesses ≤ 10000
  bound : c.bindAddress ≠ []
  rooted : c.procRoot ≠ [] ∧ c.sysRoot ≠ [] ∧ c.mountPath ≠ []

theorem validate_ok {c : ServerConfig} : validate c = .ok () ↔ c.Valid := by
  unfold validate
  split_ifs with hports hinterval htimeouts hcounts hpaths
  · exact iff_of_false nofun fun h => by have := h.ports; omega
  · exact iff_of_false nofun fun h => by have := h.pollInterval; omega
  · exact iff_of_false nofun fun h => by have := h.requestTimeout; have := h.writeTimeout; omega
  · exact iff_of_false nofun fun h => by have := h.maxClients; have := h.maxProcesses; omega
  · refine iff_of_false nofun fun h => ?_
    have hbound := h.bound
    have hrooted := h.rooted
    simp_all
  · refine iff_of_true rfl ⟨by omega, by omega, by omega, by omega, by omega, by omega, ?_, ?_⟩
    · exact fun h => hpaths (.inl h)
    · exact ⟨fun h => hpaths (.inr (.inl h)), fun h => hpaths (.inr (.inr (.inl h))),
        fun h => hpaths (.inr (.inr (.inr h)))⟩

/-- What the collector reads of a configuration. -/
def ServerConfig.collector (c : ServerConfig) : Collectors.ServerConfig where
  pollInterval := UInt64.ofNat c.pollInterval
  maxProcesses := c.maxProcesses
  cgroupPath := c.cgroupPath
  includeLoopback := c.includeLoopback

/-- Clients take the interval and the number of rows of every valid configuration. -/
theorem ServerConfig.Valid.accepted {c : ServerConfig} (h : c.Valid) (rows : Nat) :
    (100 ≤ c.collector.pollInterval.toNat ∧ c.collector.pollInterval.toNat ≤ 60000) ∧
      min c.collector.maxProcesses rows ≤ 10000 := by
  have hpoll := h.pollInterval
  have hprocesses := h.maxProcesses
  have hinterval : c.collector.pollInterval.toNat = c.pollInterval :=
    UInt64.toNat_ofNat_of_lt' (show c.pollInterval < 2 ^ 64 by omega)
  rw [hinterval]
  exact ⟨hpoll, (min_le_left _ _).trans hprocesses.2⟩

/-- The options that say a configuration. -/
def ServerConfig.options (c : ServerConfig) : List (Bytes × Bytes) :=
  [TextOption.bind, .procRoot, .sysRoot, .mount, .cgroup].map (fun o => (o.name, c.text o)) ++
    [NumberOption.httpPort, .streamPort, .intervalMs, .requestTimeoutMs, .writeTimeoutMs, .maxClients,
      .maxProcesses].map fun o => (o.name, Decimal.numeral (c.number o))

/-- A command line for a configuration. -/
def ServerConfig.toArgs (c : ServerConfig) : List Bytes :=
  (if c.includeLoopback then [lit "--include-loopback"] else []) ++
    c.options.flatMap fun e => [e.1, e.2]

theorem last_text (c : ServerConfig) (o : TextOption) : last o.name c.options = some (c.text o) := by
  cases o <;> rfl

theorem last_number (c : ServerConfig) (o : NumberOption) :
    last o.name c.options = some (Decimal.numeral (c.number o)) := by
  cases o <;> rfl

theorem number_numeral {n : Nat} (h : n < 2 ^ 32) : number (Decimal.numeral n) = .ok n :=
  number_ok.mpr ⟨⟨Decimal.numeral_ne_nil n, fun _ => Decimal.isDigit_numeral⟩,
    Decimal.value_numeral n, h⟩

theorem ServerConfig.Valid.number_lt {c : ServerConfig} (h : c.Valid) (o : NumberOption) :
    c.number o < 2 ^ 32 := by
  obtain ⟨hports, hpoll, hrequest, hwrite, hclients, hprocesses, -, -⟩ := h
  cases o <;> simp only [ServerConfig.number] <;> omega

theorem reads_flatMap {pairs : List (Bytes × Bytes)}
    (h : ∀ e ∈ pairs, e.1 ≠ lit "--include-loopback") :
    Reads (pairs.flatMap fun e => [e.1, e.2]) pairs false := by
  induction pairs with
  | nil => exact .nil
  | cons e pairs ih =>
    obtain ⟨he, hpairs⟩ := List.forall_mem_cons.mp h
    exact (ih hpairs).option he

theorem mem_options {c : ServerConfig} {e : Bytes × Bytes} (h : e ∈ c.options) :
    (∃ o : TextOption, e = (o.name, c.text o)) ∨
      ∃ o : NumberOption, e = (o.name, Decimal.numeral (c.number o)) := by
  rcases List.mem_append.mp h with h | h
  · obtain ⟨o, -, rfl⟩ := List.mem_map.mp h
    exact .inl ⟨o, rfl⟩
  · obtain ⟨o, -, rfl⟩ := List.mem_map.mp h
    exact .inr ⟨o, rfl⟩

theorem reads_toArgs (c : ServerConfig) : Reads c.toArgs c.options c.includeLoopback := by
  have hreads : Reads (c.options.flatMap fun e => [e.1, e.2]) c.options false := by
    apply reads_flatMap
    intro e he
    rcases mem_options he with ⟨o, rfl⟩ | ⟨o, rfl⟩
    · exact o.name_ne
    · exact o.name_ne
  unfold ServerConfig.toArgs
  cases c.includeLoopback with
  | false => exact hreads
  | true => exact hreads.loopback

/-- Every valid configuration can be asked for, whatever the arguments start from. -/
theorem readArgs_toArgs {c base : ServerConfig} (h : c.Valid) (hbase : base.includeLoopback = false) :
    readArgs base c.toArgs = .ok c := by
  refine readArgs_ok.mpr ⟨c.options, c.includeLoopback, reads_toArgs c, fun e he => ?_, fun o => ?_,
    fun o => ?_, ?_⟩
  · rcases mem_options he with ⟨o, rfl⟩ | ⟨o, rfl⟩
    · exact .inl ⟨o, rfl⟩
    · exact .inr ⟨o, c.number o, rfl, number_numeral (h.number_lt o)⟩
  · rw [last_text, Option.getD_some]
  · rw [last_number]
    exact number_numeral (h.number_lt o)
  · rw [hbase, Bool.or_false]

theorem readEnvironment_includeLoopback {http stream : Option Bytes} {base : ServerConfig}
    (h : readEnvironment http stream = .ok base) : base.includeLoopback = false := by
  unfold readEnvironment at h
  cases hhttp : http.elim (.ok ({} : ServerConfig).port) number with
  | error _ =>
    rw [hhttp] at h
    cases h
  | ok port =>
    rw [hhttp] at h
    cases hstream : stream.elim (.ok ({} : ServerConfig).streamingPort) number with
    | error _ =>
      rw [hstream] at h
      cases h
    | ok streamingPort =>
      rw [hstream] at h
      cases h
      rfl

theorem fromArgs_ok {http stream : Option Bytes} {args : List Bytes} {c : ServerConfig} :
    fromArgs http stream args = .ok c ↔ ∃ base, readEnvironment http stream = .ok base ∧
      readArgs base args = .ok c ∧ c.Valid := by
  unfold fromArgs
  cases readEnvironment http stream with
  | error _ => exact iff_of_false nofun nofun
  | ok base =>
    simp only [Except.ok.injEq, exists_eq_left']
    change (readArgs base args >>= fun c => validate c >>= fun _ => pure c) = .ok c ↔ _
    cases readArgs base args with
    | error _ => exact iff_of_false nofun nofun
    | ok d =>
      change (validate d >>= fun _ => pure d) = .ok c ↔ _
      rw [Except.ok.injEq]
      cases hvalid : validate d with
      | error _ =>
        refine iff_of_false nofun ?_
        rintro ⟨rfl, h⟩
        cases hvalid.symm.trans (validate_ok.mpr h)
      | ok _ =>
        change (.ok d : Except Bytes ServerConfig) = .ok c ↔ _
        rw [Except.ok.injEq]
        exact ⟨fun h => ⟨h, h ▸ validate_ok.mp hvalid⟩, And.left⟩

theorem fromArgs_error {http stream : Option Bytes} {args : List Bytes} {m : Bytes} :
    fromArgs http stream args = .error m ↔ readEnvironment http stream = .error m ∨
      ∃ base, readEnvironment http stream = .ok base ∧ (readArgs base args = .error m ∨
        ∃ c, readArgs base args = .ok c ∧ validate c = .error m) := by
  unfold fromArgs
  cases readEnvironment http stream with
  | error _ => simp [bind, Except.bind]
  | ok base =>
    cases hread : readArgs base args with
    | error _ => simp [bind, Except.bind, hread]
    | ok d => cases hvalid : validate d <;> simp [bind, Except.bind, pure, Except.pure, hread, hvalid]

/-- What the server makes of its environment and command line: a configuration of which every
option is the last one given, or the one message of the first thing that is wrong. Every valid
configuration has a command line. -/
theorem fromArgs_exact (http stream : Option Bytes) (args : List Bytes) :
    (∀ c, fromArgs http stream args = .ok c ↔
      ∃ base pairs b, readEnvironment http stream = .ok base ∧ Reads args pairs b ∧
        (∀ e ∈ pairs, Known e) ∧ Follows base pairs b c ∧ c.Valid) ∧
    (∀ m, fromArgs http stream args = .error m ↔ readEnvironment http stream = .error m ∨
      ∃ base, readEnvironment http stream = .ok base ∧
        ((∃ front pairs b rest, args = front ++ rest ∧ Reads front pairs b ∧
            (∀ e ∈ pairs, Known e) ∧ Fault rest m) ∨
          ∃ pairs b c, Reads args pairs b ∧ (∀ e ∈ pairs, Known e) ∧ Follows base pairs b c ∧
            validate c = .error m)) ∧
    ∀ base, readEnvironment http stream = .ok base → ∀ c : ServerConfig, c.Valid →
      fromArgs http stream c.toArgs = .ok c := by
  refine ⟨fun c => ?_, fun m => ?_, fun base hbase c hvalid => ?_⟩
  · rw [fromArgs_ok]
    simp only [readArgs_ok]
    constructor
    · intro ⟨base, hbase, ⟨pairs, b, hreads, hknown, hfollows⟩, hvalid⟩
      exact ⟨base, pairs, b, hbase, hreads, hknown, hfollows, hvalid⟩
    · intro ⟨base, pairs, b, hbase, hreads, hknown, hfollows, hvalid⟩
      exact ⟨base, hbase, ⟨pairs, b, hreads, hknown, hfollows⟩, hvalid⟩
  · rw [fromArgs_error]
    simp only [readArgs_error, readArgs_ok]
    refine or_congr_right (exists_congr fun base => and_congr_right fun _ => or_congr_right ?_)
    constructor
    · intro ⟨c, ⟨pairs, b, hreads, hknown, hfollows⟩, hvalid⟩
      exact ⟨pairs, b, c, hreads, hknown, hfollows, hvalid⟩
    · intro ⟨pairs, b, c, hreads, hknown, hfollows, hvalid⟩
      exact ⟨c, ⟨pairs, b, hreads, hknown, hfollows⟩, hvalid⟩
  · apply fromArgs_ok.mpr
    have hloopback := readEnvironment_includeLoopback hbase
    exact ⟨base, hbase, readArgs_toArgs hvalid hloopback, hvalid⟩

theorem fromArgs_exact_default : fromArgs none (some (lit "9000")) ({} : ServerConfig).toArgs = .ok {} :=
  (fromArgs_exact none (some (lit "9000")) []).2.2 { streamingPort := 9000 } rfl {}
    (validate_ok.mp rfl)

end WebHtop.Server.Config
