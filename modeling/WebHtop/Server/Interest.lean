import WebHtop.Server.Delivery

/-!
# What epoll watches

The registrations are changed in seven places. Between two events each live session is
registered once, under its own token, for exactly what it can make progress on; the
listeners are registered unless accepting is paused. The kernel is relied on for one
thing: `accept4` returns a descriptor that is not open.
-/

namespace WebHtop.Server

open WebHtop.Lib

/-- What epoll should hold for a session. -/
def Session.registration (token : Nat) (x : Session) : Registration where
  fd := x.fd
  token := token
  input := !x.streaming && !x.responding
  output := !x.output.empty

/-- The descriptor that an event takes from `accept4`. -/
def Event.descriptor : Event → Option Nat
  | .accept _ (.descriptor fd) => some fd
  | _ => none

/-- What Accept registers for a new session. -/
def Session.requested (token : Nat) (x : Session) : Registration where
  fd := x.fd
  token := token
  input := !x.streaming
  output := x.streaming && !x.output.empty

/-- A listener waits for connections. -/
def listening (fd token : Nat) : Registration := { fd, token, input := true, output := false }

/-- Registrations that fit the sessions. `fixed` are the descriptors that are open as long
as the reactor runs. -/
structure Watched (fixed : List Nat) (http stream : Nat) (paused stopped : Bool)
    (epoll : List Registration) (sessions : Table Nat Session) : Prop where
  once : (epoll.map Registration.fd).Nodup
  registered : ∀ e ∈ sessions, e.2.registration e.1 ∈ epoll
  distinct : (sessions.map fun e => e.2.fd).Nodup
  apart : ∀ e ∈ sessions, e.2.fd ∉ fixed
  listening : paused = false → listening http kHttp ∈ epoll ∧ listening stream kStream ∈ epoll
  paused : paused = true → ∀ g ∈ epoll, g.fd ≠ http ∧ g.fd ≠ stream
  listeners : http ∈ fixed ∧ stream ∈ fixed ∧ http ≠ stream
  origin : stopped = false → ∀ g ∈ epoll, g.fd ∈ fixed ∨ ∃ e ∈ sessions, e.2.fd = g.fd

namespace Watched

variable {fixed : List Nat} {http stream : Nat} {paused stopped : Bool}
  {epoll : List Registration} {sessions sessions' : Table Nat Session} {token : Nat}
  {s s' : Session}

/-- A descriptor belongs to one session. -/
theorem fd_ne (h : Watched fixed http stream paused stopped epoll sessions)
    {e e' : Nat × Session} (he : e ∈ sessions) (he' : e' ∈ sessions) (hne : e.1 ≠ e'.1) :
    e.2.fd ≠ e'.2.fd :=
  fun hfd => hne (congrArg Prod.fst (List.inj_on_of_nodup_map h.distinct he he' hfd))

theorem entry_eq (hn : sessions.keys.Nodup) (hm : (token, s) ∈ sessions) {e : Nat × Session}
    (he : e ∈ sessions) (ht : e.1 = token) : e = (token, s) :=
  List.inj_on_of_nodup_map hn he hm ht

theorem fixed_ne (h : Watched fixed http stream paused stopped epoll sessions)
    (hm : (token, s) ∈ sessions) {fd : Nat} (hfd : fd ∈ fixed) : fd ≠ s.fd :=
  fun heq => h.apart _ hm (heq ▸ hfd)

/-- Closing a session ends its registration. -/
theorem closed (h : Watched fixed http stream paused stopped epoll sessions)
    (hn : sessions.keys.Nodup) (hm : (token, s) ∈ sessions) :
    Watched fixed http stream paused stopped (epoll.filter fun g => g.fd ≠ s.fd)
      (sessions.erase token) := by
  have hkeep : ∀ g ∈ epoll, g.fd ≠ s.fd → g ∈ epoll.filter fun g => g.fd ≠ s.fd :=
    fun g hg hne => List.mem_filter.mpr ⟨hg, decide_eq_true hne⟩
  refine ⟨h.once.sublist (List.filter_sublist.map _), ?_,
    h.distinct.sublist (List.filter_sublist.map _),
    fun e he => h.apart e (Table.mem_erase_iff.mp he).1, ?_, ?_, h.listeners, ?_⟩
  · intro e he
    obtain ⟨he, hne⟩ := Table.mem_erase_iff.mp he
    exact hkeep _ (h.registered e he) (h.fd_ne he hm hne)
  · intro hp
    obtain ⟨h1, h2⟩ := h.listening hp
    exact ⟨hkeep _ h1 (h.fixed_ne hm h.listeners.1), hkeep _ h2 (h.fixed_ne hm h.listeners.2.1)⟩
  · exact fun hp g hg => h.paused hp g (List.mem_filter.mp hg).1
  · intro hrun g hg
    obtain ⟨hg, hne⟩ := List.mem_filter.mp hg
    rcases h.origin hrun g hg with hf | ⟨e, he, hfd⟩
    · exact .inl hf
    · refine .inr ⟨e, Table.mem_erase_iff.mpr ⟨he, fun ht => of_decide_eq_true hne ?_⟩, hfd⟩
      rw [← hfd, entry_eq hn hm he ht]

/-- Modify after a session changed. -/
theorem updated (h : Watched fixed http stream paused stopped epoll sessions)
    (hn : sessions.keys.Nodup) (hm : (token, s) ∈ sessions) (hfd : s'.fd = s.fd) :
    Watched fixed http stream paused stopped
      (epoll.map fun g => if g.fd = s'.fd then s'.registration token else g)
      (sessions.set token s') := by
  have hk : token ∈ sessions.keys := List.mem_map_of_mem (f := Prod.fst) hm
  have hfds : (epoll.map fun g => if g.fd = s'.fd then s'.registration token else g).map
      Registration.fd = epoll.map Registration.fd := by
    rw [List.map_map]
    apply List.map_congr_left
    intro g _
    by_cases hg : g.fd = s'.fd
    · simp [hg, Session.registration]
    · simp [hg]
  have hkeep : ∀ g ∈ epoll, g.fd ≠ s.fd →
      g ∈ epoll.map fun g => if g.fd = s'.fd then s'.registration token else g := by
    intro g hg hne
    exact List.mem_map.mpr ⟨g, hg, if_neg (hfd ▸ hne)⟩
  have hentries : ∀ e ∈ sessions.set token s', ∃ e' ∈ sessions, e.2.fd = e'.2.fd := by
    intro e he
    rcases (Table.mem_set_iff hk).mp he with rfl | ⟨he, -⟩
    · exact ⟨_, hm, hfd⟩
    · exact ⟨e, he, rfl⟩
  refine ⟨hfds ▸ h.once, ?_, ?_, ?_, ?_, ?_, h.listeners, ?_⟩
  · intro e he
    rcases (Table.mem_set_iff hk).mp he with rfl | ⟨he, hne⟩
    · exact List.mem_map.mpr ⟨_, h.registered _ hm, if_pos hfd.symm⟩
    · exact hkeep _ (h.registered e he) (h.fd_ne he hm hne)
  · have hsame : (sessions.set token s').map (fun e => e.2.fd) =
        sessions.map fun e => e.2.fd := by
      rw [Table.set, List.map_map]
      apply List.map_congr_left
      intro e he
      by_cases ht : e.1 = token
      · have hfde : e.2.fd = s.fd := congrArg (fun e => e.2.fd) (entry_eq hn hm he ht)
        simp [ht, hfd, hfde]
      · simp [ht]
    rw [hsame]
    exact h.distinct
  · intro e he
    obtain ⟨e', he', hsame⟩ := hentries e he
    rw [hsame]
    exact h.apart e' he'
  · intro hp
    obtain ⟨h1, h2⟩ := h.listening hp
    exact ⟨hkeep _ h1 (h.fixed_ne hm h.listeners.1), hkeep _ h2 (h.fixed_ne hm h.listeners.2.1)⟩
  · intro hp g hg
    obtain ⟨g', hg', rfl⟩ := List.mem_map.mp hg
    split
    · rename_i heq
      show s'.fd ≠ http ∧ s'.fd ≠ stream
      exact heq ▸ h.paused hp g' hg'
    · exact h.paused hp g' hg'
  · intro hrun g hg
    have hmem : g.fd ∈ epoll.map Registration.fd :=
      hfds ▸ List.mem_map_of_mem (f := Registration.fd) hg
    obtain ⟨g', hg', heq⟩ := List.mem_map.mp hmem
    rcases h.origin hrun g' hg' with hf | ⟨e, he, hfde⟩
    · exact .inl (heq ▸ hf)
    · by_cases ht : e.1 = token
      · refine .inr ⟨(token, s'), (Table.mem_set_iff hk).mpr (.inl rfl), ?_⟩
        rw [entry_eq hn hm he ht] at hfde
        exact hfd.trans (hfde.trans heq)
      · exact .inr ⟨e, (Table.mem_set_iff hk).mpr (.inr ⟨he, ht⟩), hfde.trans heq⟩

/-- Register and emplace for a descriptor that was not open. -/
theorem inserted (h : Watched fixed http stream paused stopped epoll sessions)
    (hrun : stopped = false) (hfixed : s.fd ∉ fixed) (hnew : ∀ e ∈ sessions, e.2.fd ≠ s.fd) :
    Watched fixed http stream paused stopped (epoll ++ [s.registration token])
      (sessions ++ [(token, s)]) := by
  have hfresh : ∀ g ∈ epoll, g.fd ≠ s.fd := by
    intro g hg heq
    rcases h.origin hrun g hg with hf | ⟨e, he, hfd⟩
    · exact hfixed (heq ▸ hf)
    · exact hnew e he (hfd.trans heq)
  refine ⟨?_, ?_, ?_, ?_, ?_, ?_, h.listeners, ?_⟩
  · rw [List.map_append]
    refine List.nodup_append.mpr ⟨h.once, List.nodup_singleton _, ?_⟩
    intro a ha b hb
    obtain ⟨g, hg, rfl⟩ := List.mem_map.mp ha
    rw [List.mem_singleton.mp hb]
    exact hfresh g hg
  · intro e he
    rcases List.mem_append.mp he with he | he
    · exact List.mem_append_left _ (h.registered e he)
    · obtain rfl := List.mem_singleton.mp he
      exact List.mem_append_right _ (List.mem_singleton_self _)
  · rw [List.map_append]
    refine List.nodup_append.mpr ⟨h.distinct, List.nodup_singleton _, ?_⟩
    intro a ha b hb
    obtain ⟨e, he, rfl⟩ := List.mem_map.mp ha
    rw [List.mem_singleton.mp hb]
    exact hnew e he
  · intro e he
    rcases List.mem_append.mp he with he | he
    · exact h.apart e he
    · obtain rfl := List.mem_singleton.mp he
      exact hfixed
  · intro hp
    obtain ⟨h1, h2⟩ := h.listening hp
    exact ⟨List.mem_append_left _ h1, List.mem_append_left _ h2⟩
  · intro hp g hg
    rcases List.mem_append.mp hg with hg | hg
    · exact h.paused hp g hg
    · obtain rfl := List.mem_singleton.mp hg
      exact ⟨fun heq : s.fd = http => hfixed (heq ▸ h.listeners.1),
        fun heq : s.fd = stream => hfixed (heq ▸ h.listeners.2.1)⟩
  · intro _ g hg
    rcases List.mem_append.mp hg with hg | hg
    · rcases h.origin hrun g hg with hf | ⟨e, he, hfd⟩
      · exact .inl hf
      · exact .inr ⟨e, List.mem_append_left _ he, hfd⟩
    · obtain rfl := List.mem_singleton.mp hg
      exact .inr ⟨_, List.mem_append_right _ (List.mem_singleton_self _), rfl⟩

/-- Both listeners are taken out when no descriptor is left. -/
theorem pausing (h : Watched fixed http stream paused stopped epoll sessions) :
    Watched fixed http stream true stopped
      ((epoll.filter fun g => g.fd ≠ http).filter fun g => g.fd ≠ stream) sessions := by
  have hmem : ∀ g, g ∈ (epoll.filter fun g => g.fd ≠ http).filter (fun g => g.fd ≠ stream) ↔
      g ∈ epoll ∧ g.fd ≠ http ∧ g.fd ≠ stream := by
    intro g
    rw [List.mem_filter, List.mem_filter, decide_eq_true_eq, decide_eq_true_eq, and_assoc]
  refine ⟨?_, ?_, h.distinct, h.apart, fun hp => (nomatch hp), fun _ g hg => ((hmem g).mp hg).2,
    h.listeners, fun hrun g hg => h.origin hrun g ((hmem g).mp hg).1⟩
  · exact h.once.sublist ((List.filter_sublist.trans List.filter_sublist).map _)
  · intro e he
    exact (hmem _).mpr ⟨h.registered e he, (h.fixed_ne he h.listeners.1).symm,
      (h.fixed_ne he h.listeners.2.1).symm⟩

/-- Sweep puts them back. -/
theorem resumed (h : Watched fixed http stream true stopped epoll sessions) :
    Watched fixed http stream false stopped
      (epoll ++ [Server.listening http kHttp] ++ [Server.listening stream kStream]) sessions := by
  have hpaused := h.paused rfl
  refine ⟨?_, fun e he => ?_, h.distinct, h.apart, fun _ => ⟨?_, ?_⟩, fun hp => (nomatch hp),
    h.listeners, ?_⟩
  · rw [List.map_append, List.map_append]
    refine List.nodup_append.mpr ⟨List.nodup_append.mpr ⟨h.once, List.nodup_singleton _, ?_⟩,
      List.nodup_singleton _, ?_⟩
    · intro a ha b hb
      obtain ⟨g, hg, rfl⟩ := List.mem_map.mp ha
      rw [List.mem_singleton.mp hb]
      exact (hpaused g hg).1
    · intro a ha b hb
      rw [List.mem_singleton.mp hb]
      rcases List.mem_append.mp ha with ha | ha
      · obtain ⟨g, hg, rfl⟩ := List.mem_map.mp ha
        exact (hpaused g hg).2
      · rw [List.mem_singleton.mp ha]
        exact h.listeners.2.2
  · exact List.mem_append_left _ (List.mem_append_left _ (h.registered e he))
  · exact List.mem_append_left _ (List.mem_append_right _ (List.mem_singleton_self _))
  · exact List.mem_append_right _ (List.mem_singleton_self _)
  · intro hrun g hg
    rcases List.mem_append.mp hg with hg | hg
    · rcases List.mem_append.mp hg with hg | hg
      · exact h.origin hrun g hg
      · obtain rfl := List.mem_singleton.mp hg
        exact .inl h.listeners.1
    · obtain rfl := List.mem_singleton.mp hg
      exact .inl h.listeners.2.1

theorem reordered (h : Watched fixed http stream paused stopped epoll sessions)
    (hp : sessions'.Perm sessions) : Watched fixed http stream paused stopped epoll sessions' := by
  refine ⟨h.once, fun e he => h.registered e (hp.subset he),
    (hp.map fun e => e.2.fd).nodup_iff.mpr h.distinct, fun e he => h.apart e (hp.subset he),
    h.listening, h.paused, h.listeners, fun hrun g hg => ?_⟩
  rcases h.origin hrun g hg with hf | ⟨e, he, hfd⟩
  · exact .inl hf
  · exact .inr ⟨e, hp.symm.subset he, hfd⟩

end Watched

/-- A token in epoll that is that of a live session is registered for its descriptor. -/
structure Owned (nextToken : Nat) (epoll : List Registration) (sessions : Table Nat Session) :
    Prop where
  start : 16 ≤ nextToken
  lt : ∀ g ∈ epoll, g.token < nextToken
  ge : ∀ e ∈ sessions, 16 ≤ e.1
  own : ∀ g ∈ epoll, ∀ e ∈ sessions, g.token = e.1 → g.fd = e.2.fd

namespace Owned

variable {nextToken : Nat} {epoll epoll' : List Registration} {sessions sessions' : Table Nat Session}
  {token : Nat} {s s' : Session}

theorem shrunk (h : Owned nextToken epoll sessions) (he : epoll' ⊆ epoll)
    (hs : sessions' ⊆ sessions) : Owned nextToken epoll' sessions' :=
  ⟨h.start, fun g hg => h.lt g (he hg), fun e hm => h.ge e (hs hm),
    fun g hg e hm => h.own g (he hg) e (hs hm)⟩

theorem issued (h : Owned nextToken epoll sessions) : Owned (nextToken + 1) epoll sessions :=
  ⟨Nat.le_succ_of_le h.start, fun g hg => Nat.lt_succ_of_lt (h.lt g hg), h.ge, h.own⟩

theorem updated (h : Owned nextToken epoll sessions) (hm : (token, s) ∈ sessions)
    (hlt : token < nextToken) (hfd : s'.fd = s.fd) :
    Owned nextToken (epoll.map fun g => if g.fd = s'.fd then s'.registration token else g)
      (sessions.set token s') := by
  have hk : token ∈ sessions.keys := List.mem_map_of_mem (f := Prod.fst) hm
  refine ⟨h.start, ?_, ?_, ?_⟩
  · intro g hg
    obtain ⟨g', hg', rfl⟩ := List.mem_map.mp hg
    split
    · exact hlt
    · exact h.lt g' hg'
  · intro e he
    rcases (Table.mem_set_iff hk).mp he with rfl | ⟨he, -⟩
    · exact h.ge (token, s) hm
    · exact h.ge e he
  · intro g hg e he ht
    obtain ⟨g', hg', rfl⟩ := List.mem_map.mp hg
    rcases (Table.mem_set_iff hk).mp he with rfl | ⟨he, hne⟩
    · split
      · rfl
      · rename_i hother
        rw [if_neg hother] at ht
        exact (h.own g' hg' (token, s) hm ht).trans hfd.symm
    · split
      · rename_i hsame
        rw [if_pos hsame] at ht
        exact absurd ht.symm hne
      · rename_i hother
        rw [if_neg hother] at ht
        exact h.own g' hg' e he ht

theorem inserted (h : Owned nextToken epoll sessions) (hlt : ∀ t ∈ sessions.keys, t < nextToken)
    {g : Registration} (hg : g.token = nextToken) (hfd : g.fd = s.fd) :
    Owned (nextToken + 1) (epoll ++ [g]) (sessions ++ [(nextToken, s)]) := by
  refine ⟨Nat.le_succ_of_le h.start, ?_, ?_, ?_⟩
  · intro g' hg'
    rcases List.mem_append.mp hg' with hg' | hg'
    · exact Nat.lt_succ_of_lt (h.lt g' hg')
    · rw [List.mem_singleton.mp hg', hg]
      exact Nat.lt_succ_self _
  · intro e he
    rcases List.mem_append.mp he with he | he
    · exact h.ge e he
    · rw [List.mem_singleton.mp he]
      exact h.start
  · intro g' hg' e he ht
    rcases List.mem_append.mp hg' with hg' | hg' <;> rcases List.mem_append.mp he with he | he
    · exact h.own g' hg' e he ht
    · rw [List.mem_singleton.mp he] at ht
      exact absurd ht (Nat.ne_of_lt (h.lt g' hg'))
    · rw [List.mem_singleton.mp hg', hg] at ht
      exact absurd ht.symm (Nat.ne_of_lt (hlt e.1 (List.mem_map_of_mem (f := Prod.fst) he)))
    · rw [List.mem_singleton.mp hg', List.mem_singleton.mp he]
      exact hfd

/-- The tokens of the listeners are no session's. -/
theorem listening (h : Owned nextToken epoll sessions) (fd : Nat) {t : Nat} (ht : t < 16) :
    Owned nextToken (epoll ++ [Server.listening fd t]) sessions := by
  refine ⟨h.start, ?_, h.ge, ?_⟩
  · intro g hg
    rcases List.mem_append.mp hg with hg | hg
    · exact h.lt g hg
    · rw [List.mem_singleton.mp hg]
      exact Nat.lt_of_lt_of_le ht h.start
  · intro g hg e he heq
    rcases List.mem_append.mp hg with hg | hg
    · exact h.own g hg e he heq
    · rw [List.mem_singleton.mp hg] at heq
      have hge := h.ge e he
      have : t = e.1 := heq
      omega

end Owned

/-- What is left of the sessions of `r` in `r'`, a later state. -/
structure Continues (r r' : Reactor) : Prop where
  tokens : r.nextToken ≤ r'.nextToken
  same : ∀ e' ∈ r'.sessions, e'.1 < r.nextToken → ∃ e ∈ r.sessions, e.1 = e'.1 ∧ e.2.Same e'.2

theorem Continues.refl (r : Reactor) : Continues r r :=
  ⟨Nat.le_refl _, fun e he _ => ⟨e, he, rfl, .refl _⟩⟩

theorem Continues.trans {r r' r'' : Reactor} (h : Continues r r') (h' : Continues r' r'') :
    Continues r r'' := by
  refine ⟨h.tokens.trans h'.tokens, fun e'' he'' hlt => ?_⟩
  obtain ⟨e', he', heq', hsame'⟩ := h'.same e'' he'' (Nat.lt_of_lt_of_le hlt h.tokens)
  obtain ⟨e, he, heq, hsame⟩ := h.same e' he' (heq' ▸ hlt)
  exact ⟨e, he, heq.trans heq', hsame.trans hsame'⟩

/-- No session is new, or under another token. -/
theorem Continues.of_subset {r r' : Reactor} (ht : r'.nextToken = r.nextToken)
    (hs : r'.sessions ⊆ r.sessions) : Continues r r' :=
  ⟨Nat.le_of_eq ht.symm, fun e he _ => ⟨e, hs he, rfl, .refl _⟩⟩

namespace Reactor

variable {config : ReactorConfig} {fixed : List Nat} {r : Reactor}

/-- The registrations of a whole reactor. -/
def Watches (fixed : List Nat) (r : Reactor) : Prop :=
  Watched fixed r.httpListener r.streamListener r.listenersPaused r.stopped r.epoll r.sessions

theorem watches_init {a b c d e : Nat} (h : [a, b, c, d, e].Nodup) :
    (init a b c d e).Watches [a, b, c, d, e] := by
  have hab : a ≠ b := fun heq => by simp [heq] at h
  refine ⟨h, by simp [init, register], by simp [init, register], by simp [init, register],
    fun _ => ?_, fun hp => (nomatch hp), ?_, fun _ g hg => .inl ?_⟩
  · simp [init, register, listening]
  · simp [init, register, hab]
  · exact List.mem_map_of_mem (f := Registration.fd) hg

theorem watches_close (ha : r.Accounts config) (h : r.Watches fixed) (token : Nat) :
    (r.close token).Watches fixed := by
  unfold close
  cases hg : r.sessions.get token with
  | none => exact h
  | some s => exact h.closed ha.distinct (Table.mem_of_get hg)

/-- Close, after its session has changed. -/
theorem watches_left (ha : r.Accounts config) (h : r.Watches fixed) {token : Nat} {s s' : Session}
    (hg : r.sessions.get token = some s) (hfd : s'.fd = s.fd) (m' : Meter) (rejected : Nat) :
    (close { r with toMeter := m', sessions := r.sessions.set token s', rejected }
      token).Watches fixed := by
  have hset : (r.sessions.set token s').get token = some s' :=
    Table.get_set_self (Table.mem_keys_of_get hg)
  have hclosed := h.closed ha.distinct (Table.mem_of_get hg)
  simp only [close, hset, unregister]
  rw [← Table.erase_set r.sessions token s', ← hfd] at hclosed
  exact hclosed

theorem watches_accept (h : r.Watches fixed) (hrun : r.stopped = false)
    (latest : Option Published) (streaming : Bool) {result : AcceptResult}
    (hnew : ∀ fd, result = .descriptor fd → fd ∉ fixed ∧ ∀ e ∈ r.sessions, e.2.fd ≠ fd) :
    (r.accept config latest streaming result).Watches fixed := by
  cases result with
  | interrupted => exact h
  | wouldBlock => exact h
  | exhausted => exact h.pausing
  | failed => exact h
  | descriptor fd =>
      obtain ⟨hfixed, hsessions⟩ := hnew fd rfl
      simp only [accept]
      split
      · exact h
      · let s : Session :=
          { fd, streaming, acceptedAt := r.clock, lastProgress := r.clock,
            log := [(r.clock, .accepted)] }
        -- `Register` of a new session asks for what `Modify` would.
        have hinsert : ∀ s' : Session, s.Same s' → s'.responding = false →
            (s'.streaming = false → s'.output.empty = true) →
            Watched fixed r.httpListener r.streamListener r.listenersPaused r.stopped
              (r.epoll ++ [s'.requested r.nextToken]) (r.sessions ++ [(r.nextToken, s')]) := by
          intro s' hsame hresponding hempty
          have hreg : s'.registration r.nextToken = s'.requested r.nextToken := by
            cases hs : s'.streaming with
            | true => simp [Session.registration, Session.requested, hs, hresponding]
            | false => simp [Session.registration, Session.requested, hs, hresponding, hempty hs]
          rw [← hreg]
          exact h.inserted hrun (hsame.fd ▸ hfixed) (fun e he => hsame.fd ▸ hsessions e he)
        split
        · rename_i published
          have hsame := (Meter.enqueue_same r.toMeter s published.frame).1
          have hresponding := Meter.enqueue_responding r.toMeter s published.frame
          split
          · rename_i s' m' he
            rw [he] at hsame hresponding
            exact hinsert s' hsame hresponding
              fun hs => absurd (hs.symm.trans hsame.streaming) (by simp [s])
          · exact h
        · exact hinsert s (.refl s) rfl fun _ => rfl

theorem watches_broadcastTo (ha : r.Accounts config) (h : r.Watches fixed) (published : Published)
    (token : Nat) : (broadcastTo published r token).Watches fixed := by
  unfold broadcastTo
  cases hg : r.sessions.get token with
  | none => exact h
  | some s =>
      have hfd := (Meter.enqueue_same r.toMeter s published.frame).1.fd
      simp only
      split
      · exact h
      · split
        · exact h.updated ha.distinct (Table.mem_of_get hg) hfd
        · exact watches_left ha h hg hfd _ _

theorem watches_broadcast (ha : r.Accounts config) (h : r.Watches fixed)
    (latest : Option Published) : (r.broadcast latest).Watches fixed := by
  unfold broadcast
  split
  · exact h
  · rename_i published
    split
    · exact h
    · have hloop := List.foldlRecOn r.sessions.keys (broadcastTo published)
        (motive := fun r => r.Accounts config ∧ r.Watches fixed)
        (b := { r with lastSequence := published.sequence }) ⟨ha, h⟩ fun r hr token _ =>
          ⟨accounts_broadcastTo hr.1 published token, watches_broadcastTo hr.1 hr.2 published token⟩
      exact hloop.2

theorem watches_sweep (ha : r.Accounts config) (h : r.Watches fixed) :
    (r.sweep config).Watches fixed := by
  have hone : ∀ r : Reactor, r.Accounts config → r.Watches fixed → ∀ token,
      (sweepOne config r token).Watches fixed := by
    intro r ha hr token
    unfold sweepOne
    split
    · exact hr
    · split
      · exact watches_close (r := { r with timeouts := r.timeouts + 1 }) ha hr token
      · exact hr
  have hloop := List.foldlRecOn r.sessions.keys (sweepOne config)
    (motive := fun r => r.Accounts config ∧ r.Watches fixed) (b := r) ⟨ha, h⟩ fun r hr token _ =>
      ⟨accounts_sweepOne hr.1 token, hone r hr.1 hr.2 token⟩
  have hf := hloop.2
  unfold sweep
  simp only
  split
  · rename_i hpaused
    rw [Watches, hpaused] at hf
    exact hf.resumed
  · exact hf

theorem watches_handle (ha : r.Accounts config) (hc : r.Chronicle) (h : r.Watches fixed)
    (limit : Buffer) (route : Bytes → Buffer) (token : Nat) (ready : Ready)
    (recvs : List RecvResult) (sends : List SendResult) :
    (r.handle limit route token ready recvs sends).Watches fixed := by
  cases hg : r.sessions.get token with
  | none =>
      have hsame : r.handle limit route token ready recvs sends = r := by
        simp only [handle, hg]
      rwa [hsame]
  | some s =>
      obtain ⟨-, -, hcar⟩ := Meter.serve_leaves limit route token ready recvs sends
        (hc.live _ (Table.mem_of_get hg))
      rw [Meter.handle_eq limit route ready recvs sends hg]
      simp only
      split
      · exact h.updated ha.distinct (Table.mem_of_get hg) hcar.same.fd
      · exact watches_left ha h hg hcar.same.fd _ _

/-! ## Tokens and identities -/

/-- The tokens of a whole reactor. -/
def Owns (r : Reactor) : Prop := Owned r.nextToken r.epoll r.sessions

theorem owns_init (a b c d e : Nat) : (init a b c d e).Owns :=
  ⟨Nat.le_refl _, by simp [init, register, kHttp, kStream, kSignal, kNotification, kTimer],
    by simp [init, register], by simp [init, register]⟩

theorem owns_close (h : r.Owns) (token : Nat) :
    (r.close token).Owns ∧ Continues r (r.close token) := by
  unfold close
  cases hg : r.sessions.get token with
  | none => exact ⟨h, .refl r⟩
  | some s =>
      exact ⟨h.shrunk List.filter_sublist.subset List.filter_sublist.subset,
        .of_subset rfl List.filter_sublist.subset⟩

theorem continues_set {token : Nat} {s s' : Session} (hg : r.sessions.get token = some s)
    (hsame : s.Same s') {r' : Reactor} (ht : r'.nextToken = r.nextToken)
    (hs : r'.sessions ⊆ r.sessions.set token s') : Continues r r' := by
  refine ⟨Nat.le_of_eq ht.symm, fun e he _ => ?_⟩
  rcases (Table.mem_set_iff (Table.mem_keys_of_get hg)).mp (hs he) with rfl | ⟨he, -⟩
  · exact ⟨_, Table.mem_of_get hg, rfl, hsame⟩
  · exact ⟨e, he, rfl, .refl _⟩

/-- Close, after its session has changed. -/
theorem owns_left (h : r.Owns) {token : Nat} {s s' : Session}
    (hg : r.sessions.get token = some s) (hsame : s.Same s') (m' : Meter) (rejected : Nat) :
    (close { r with toMeter := m', sessions := r.sessions.set token s', rejected } token).Owns ∧
      Continues r
        (close { r with toMeter := m', sessions := r.sessions.set token s', rejected } token) := by
  have hset : (r.sessions.set token s').get token = some s' :=
    Table.get_set_self (Table.mem_keys_of_get hg)
  simp only [close, hset, unregister]
  refine ⟨h.shrunk List.filter_sublist.subset ?_, continues_set hg hsame rfl List.filter_sublist.subset⟩
  rw [Table.erase_set]
  exact List.filter_sublist.subset

theorem owns_accept (ha : r.Accounts config) (h : r.Owns) (latest : Option Published)
    (streaming : Bool) (result : AcceptResult) :
    (r.accept config latest streaming result).Owns ∧
      Continues r (r.accept config latest streaming result) := by
  cases result with
  | interrupted => exact ⟨h, .refl r⟩
  | wouldBlock => exact ⟨h, .refl r⟩
  | exhausted =>
      exact ⟨h.shrunk ((List.filter_sublist.trans List.filter_sublist).subset) (List.Subset.refl _),
        .of_subset rfl (List.Subset.refl _)⟩
  | failed => exact ⟨h, .of_subset rfl (List.Subset.refl _)⟩
  | descriptor fd =>
      have hnew : ∀ (r' : Reactor) (s' : Session), r'.nextToken = r.nextToken + 1 →
          r'.sessions ⊆ r.sessions ++ [(r.nextToken, s')] → Continues r r' := by
        intro r' s' ht hs
        refine ⟨ht ▸ Nat.le_succ _, fun e he hlt => ?_⟩
        rcases List.mem_append.mp (hs he) with he | he
        · exact ⟨e, he, rfl, .refl _⟩
        · rw [List.mem_singleton.mp he] at hlt
          exact absurd hlt (Nat.lt_irrefl _)
      simp only [accept]
      split
      · exact ⟨h, .of_subset rfl (List.Subset.refl _)⟩
      · split
        · rename_i published
          split
          · rename_i s' m' he
            exact ⟨Owned.inserted h ha.keys_lt rfl rfl, hnew _ s' rfl (List.Subset.refl _)⟩
          · rename_i s' m' he
            exact ⟨Owned.issued h, hnew _ s' rfl (List.subset_append_left _ _)⟩
        · exact ⟨Owned.inserted h ha.keys_lt rfl rfl, hnew _ _ rfl (List.Subset.refl _)⟩

theorem owns_broadcastTo (ha : r.Accounts config) (h : r.Owns) (published : Published)
    (token : Nat) :
    (broadcastTo published r token).Owns ∧ Continues r (broadcastTo published r token) := by
  unfold broadcastTo
  cases hg : r.sessions.get token with
  | none => exact ⟨h, .refl r⟩
  | some s =>
      have hsame := (Meter.enqueue_same r.toMeter s published.frame).1
      have hk := Table.mem_keys_of_get hg
      simp only
      split
      · exact ⟨h, .refl r⟩
      · split
        · exact ⟨Owned.updated h (Table.mem_of_get hg) (ha.keys_lt token hk) hsame.fd,
            continues_set hg hsame rfl (List.Subset.refl _)⟩
        · exact owns_left h hg hsame _ _

theorem owns_broadcast (ha : r.Accounts config) (h : r.Owns) (latest : Option Published) :
    (r.broadcast latest).Owns ∧ Continues r (r.broadcast latest) := by
  unfold broadcast
  split
  · exact ⟨h, .refl r⟩
  · rename_i published
    split
    · exact ⟨h, .refl r⟩
    · have hloop := List.foldlRecOn r.sessions.keys (broadcastTo published)
        (motive := fun r' => r'.Accounts config ∧ r'.Owns ∧ Continues r r')
        (b := { r with lastSequence := published.sequence })
        ⟨ha, h, .of_subset rfl (List.Subset.refl _)⟩ fun r' hr token _ =>
          have hone := owns_broadcastTo hr.1 hr.2.1 published token
          ⟨accounts_broadcastTo hr.1 published token, hone.1, hr.2.2.trans hone.2⟩
      exact hloop.2

theorem owns_sweep (h : r.Owns) : (r.sweep config).Owns ∧ Continues r (r.sweep config) := by
  have hone : ∀ r : Reactor, r.Owns → ∀ token,
      (sweepOne config r token).Owns ∧ Continues r (sweepOne config r token) := by
    intro r hr token
    unfold sweepOne
    split
    · exact ⟨hr, .refl r⟩
    · split
      · obtain ⟨howns, hcont⟩ := owns_close (r := { r with timeouts := r.timeouts + 1 }) hr token
        exact ⟨howns, hcont.tokens, hcont.same⟩
      · exact ⟨hr, .refl r⟩
  have hloop := List.foldlRecOn r.sessions.keys (sweepOne config)
    (motive := fun r' => r'.Owns ∧ Continues r r') (b := r) ⟨h, .refl r⟩ fun r' hr token _ =>
      ⟨(hone r' hr.1 token).1, hr.2.trans (hone r' hr.1 token).2⟩
  obtain ⟨howns, hcont⟩ := hloop
  unfold sweep
  simp only
  split
  · refine ⟨?_, hcont.tokens, hcont.same⟩
    exact (howns.listening _ (by decide)).listening _ (by decide)
  · exact ⟨howns, hcont⟩

theorem owns_handle (ha : r.Accounts config) (hc : r.Chronicle) (h : r.Owns) (limit : Buffer)
    (route : Bytes → Buffer) (token : Nat) (ready : Ready) (recvs : List RecvResult)
    (sends : List SendResult) :
    (r.handle limit route token ready recvs sends).Owns ∧
      Continues r (r.handle limit route token ready recvs sends) := by
  cases hg : r.sessions.get token with
  | none =>
      have hsame : r.handle limit route token ready recvs sends = r := by
        simp only [handle, hg]
      rw [hsame]
      exact ⟨h, .refl r⟩
  | some s =>
      obtain ⟨-, -, hcar⟩ := Meter.serve_leaves limit route token ready recvs sends
        (hc.live _ (Table.mem_of_get hg))
      have hk := Table.mem_keys_of_get hg
      rw [Meter.handle_eq limit route ready recvs sends hg]
      simp only
      split
      · exact ⟨Owned.updated h (Table.mem_of_get hg) (ha.keys_lt token hk) hcar.same.fd,
          continues_set hg hcar.same rfl (List.Subset.refl _)⟩
      · exact owns_left h hg hcar.same _ _

end Reactor

namespace System

variable {config : ReactorConfig} {fixed : List Nat} {s s' : System}

theorem owns_acts {latest : Option Published} {r r' : Reactor} {event : Event}
    (ha : Acts config latest r event r') (hacc : r.Accounts config) (hc : r.Chronicle)
    (h : r.Owns) : r'.Owns ∧ Continues r r' := by
  cases ha with
  | paused => exact ⟨h, .refl r⟩
  | accept streaming result => exact Reactor.owns_accept hacc h latest streaming result
  | handle token ready recvs sends limit route =>
      exact Reactor.owns_handle hacc hc h limit route token ready recvs sends
  | notification => exact Reactor.owns_broadcast hacc h latest
  | timerBroadcast => exact Reactor.owns_broadcast hacc h latest
  | sweep => exact Reactor.owns_sweep h
  | rehash i =>
      have hsub := (swapAt_perm i r.sessions).subset
      exact ⟨Owned.shrunk h (List.Subset.refl _) hsub, .of_subset rfl hsub⟩
  | elapse => exact ⟨h, .of_subset rfl (List.Subset.refl _)⟩
  | shutdown =>
      exact ⟨Owned.shrunk h (List.Subset.refl _) (List.nil_subset _),
        .of_subset rfl (List.nil_subset _)⟩

/-- `accept4` returns a descriptor that is not open. -/
def NewDescriptor (fixed : List Nat) (s : System) (event : Event) : Prop :=
  ∀ fd ∈ event.descriptor, fd ∉ fixed ∧ ∀ e ∈ s.reactor.sessions, e.2.fd ≠ fd

instance (fixed : List Nat) (s : System) (event : Event) : Decidable (NewDescriptor fixed s event) :=
  inferInstanceAs (Decidable (∀ fd ∈ event.descriptor, fd ∉ fixed ∧
    ∀ e ∈ s.reactor.sessions, e.2.fd ≠ fd))

theorem running_of_accept {streaming : Bool} {result : Reactor.AcceptResult}
    (hs : Step config s (.accept streaming result) s') : s.reactor.stopped = false := by
  simp only [Step, StepsOf, step, react] at hs
  split at hs
  · simp at hs
  · rename_i hrun
    exact Bool.not_eq_true _ ▸ hrun

theorem watches_step {event : Event} (hs : Step config s event s')
    (hnew : NewDescriptor fixed s event) (ha : s.reactor.Accounts config)
    (hc : s.reactor.Chronicle) (h : s.reactor.Watches fixed) : s'.reactor.Watches fixed := by
  rcases step_cases hs with ⟨hr, -⟩ | ⟨hr, -⟩ | ⟨hacts, -⟩
  · rwa [hr]
  · rwa [hr]
  · generalize hr : s'.reactor = r' at hacts
    cases hacts with
    | paused => exact h
    | accept streaming result =>
        refine Reactor.watches_accept h (running_of_accept hs) s.latest streaming fun fd hfd => ?_
        exact hnew fd (by rw [hfd]; rfl)
    | handle token ready recvs sends limit route =>
        exact Reactor.watches_handle ha hc h limit route token ready recvs sends
    | notification => exact Reactor.watches_broadcast ha h s.latest
    | timerBroadcast => exact Reactor.watches_broadcast ha h s.latest
    | sweep => exact Reactor.watches_sweep ha h
    | rehash i => exact Watched.reordered h (swapAt_perm i _)
    | elapse => exact h
    | shutdown =>
        exact ⟨h.once, by simp [Reactor.shutdown], by simp [Reactor.shutdown],
          by simp [Reactor.shutdown], h.listening, h.paused, h.listeners, fun hp => (nomatch hp)⟩

/-- What holds between two events. -/
structure Attentive (config : ReactorConfig) (fixed : List Nat) (r : Reactor) : Prop where
  accounts : r.Accounts config
  chronicle : r.Chronicle
  watches : r.Watches fixed
  owns : r.Owns

theorem attentive_step {event : Event} (hs : Where (Step config) (NewDescriptor fixed) s event s')
    (h : Attentive config fixed s.reactor) :
    Attentive config fixed s'.reactor ∧ Continues s.reactor s'.reactor := by
  obtain ⟨hnew, hs⟩ := hs
  have howns : s'.reactor.Owns ∧ Continues s.reactor s'.reactor := by
    rcases step_cases hs with ⟨hr, -⟩ | ⟨hr, -⟩ | ⟨hacts, -⟩
    · rw [hr]
      exact ⟨h.owns, .refl _⟩
    · rw [hr]
      exact ⟨h.owns, .refl _⟩
    · exact owns_acts hacts h.accounts h.chronicle h.owns
  exact ⟨⟨accounts_step hs h.accounts, chronicle_step hs h.chronicle,
    watches_step hs hnew h.accounts h.chronicle h.watches, howns.1⟩, howns.2⟩

variable {httpListener streamListener signalFd notificationFd timer : Nat} {es es' : List Event}

theorem attentive_run (hn : [httpListener, streamListener, signalFd, notificationFd, timer].Nodup)
    (hr : Run (Where (Step config)
        (NewDescriptor [httpListener, streamListener, signalFd, notificationFd, timer]))
      (init httpListener streamListener signalFd notificationFd timer) es s) :
    Attentive config [httpListener, streamListener, signalFd, notificationFd, timer] s.reactor :=
  hr.invariant (I := fun s => Attentive config _ s.reactor)
    ⟨Reactor.accounts_init _ _ _ _ _, Reactor.chronicle_init _ _ _ _ _, Reactor.watches_init hn,
      Reactor.owns_init _ _ _ _ _⟩
    fun h hs => (attentive_step hs h).1

theorem continues_run (h : Attentive config fixed s.reactor)
    (hr : Run (Where (Step config) (NewDescriptor fixed)) s es s') :
    Continues s.reactor s'.reactor := by
  have hboth := hr.invariant
    (I := fun s' => Attentive config fixed s'.reactor ∧ Continues s.reactor s'.reactor)
    ⟨h, .refl _⟩ fun h hs =>
      have hnext := attentive_step hs h.1
      ⟨hnext.1, h.2.trans hnext.2⟩
  exact hboth.2

/-- Between two events each live session is registered once, under its own token, for
output exactly when it has some and for input exactly when it still reads a request; the
listeners are registered exactly when accepting is not paused; no descriptor is registered
twice, and none that `accept4` can return is registered. An event of a batch that epoll
returned is applied, after any other events, to the session that it was registered for, or
to none. -/
theorem no_lost_wakeup
    (hn : [httpListener, streamListener, signalFd, notificationFd, timer].Nodup)
    (hr : Run (Where (Step config)
        (NewDescriptor [httpListener, streamListener, signalFd, notificationFd, timer]))
      (init httpListener streamListener signalFd notificationFd timer) es s) :
    (∀ e ∈ s.reactor.sessions, ∃ g ∈ s.reactor.epoll, g.fd = e.2.fd ∧ g.token = e.1 ∧
      (g.output = true ↔ e.2.output.empty = false) ∧
      (g.input = true ↔ e.2.streaming = false ∧ e.2.responding = false)) ∧
    (s.reactor.epoll.map Registration.fd).Nodup ∧
    (s.reactor.stopped = false → ∀ streaming fd,
      NewDescriptor [httpListener, streamListener, signalFd, notificationFd, timer] s
        (.accept streaming (.descriptor fd)) → ∀ g ∈ s.reactor.epoll, g.fd ≠ fd) ∧
    (s.reactor.listenersPaused = false →
      listening s.reactor.httpListener kHttp ∈ s.reactor.epoll ∧
      listening s.reactor.streamListener kStream ∈ s.reactor.epoll) ∧
    (s.reactor.listenersPaused = true →
      ∀ g ∈ s.reactor.epoll, g.fd ≠ s.reactor.httpListener ∧ g.fd ≠ s.reactor.streamListener) ∧
    (∀ es' s', Run (Where (Step config)
        (NewDescriptor [httpListener, streamListener, signalFd, notificationFd, timer])) s es' s' →
      ∀ g ∈ s.reactor.epoll, ∀ x', s'.reactor.sessions.get g.token = some x' →
        ∃ x, s.reactor.sessions.get g.token = some x ∧ x.fd = g.fd ∧ x.Same x') := by
  have h := attentive_run hn hr
  refine ⟨fun e he => ⟨_, h.watches.registered e he, rfl, rfl, ?_, ?_⟩, h.watches.once, ?_,
    h.watches.listening, h.watches.paused, ?_⟩
  · simp [Session.registration]
  · simp [Session.registration]
  · intro hrun streaming fd hnew g hg heq
    obtain ⟨hfixed, hsessions⟩ := hnew fd rfl
    rcases h.watches.origin hrun g hg with hf | ⟨e, he, hfd⟩
    · exact hfixed (heq ▸ hf)
    · exact hsessions e he (hfd.trans heq)
  · intro es' s' hr' g hg x' hx'
    obtain ⟨e, he, ht, hsame⟩ := (continues_run h hr').same _ (Table.mem_of_get hx')
      (h.owns.lt g hg)
    have hfd := h.owns.own g hg e he ht.symm
    have hmem : (g.token, e.2) ∈ s.reactor.sessions := by
      rw [show e = (g.token, e.2) from Prod.ext ht rfl] at he
      exact he
    exact ⟨e.2, Table.get_of_mem h.accounts.distinct hmem, hfd.symm, hsame⟩

/-- An HTTP client and a subscriber, which is sent a frame and gets another. -/
def watched : List Event :=
  [.accept false (.descriptor 9), .accept true (.descriptor 10), .publish twoBytes, .notify,
    .notification, .session 17 { output := true } [] [.accepted 2 0] twoBytes fun _ => twoBytes,
    .publish twoBytes, .notify, .notification]

/-- The client hangs up and its descriptor is accepted again. -/
def reused : List Event :=
  [.session 16 { input := true, readHup := true } [.data []] [] twoBytes fun _ => twoBytes,
    .accept false (.descriptor 9)]

theorem no_lost_wakeup_watched : ∃ s s',
    Run (Where (Step {}) (NewDescriptor [3, 4, 5, 6, 7])) (init 3 4 5 6 7) watched s ∧
    Run (Where (Step {}) (NewDescriptor [3, 4, 5, 6, 7])) s reused s' ∧
    s'.reactor.sessions.map Prod.fst = [17, 18] ∧
    (∀ e ∈ s.reactor.sessions, ∃ g ∈ s.reactor.epoll, g.fd = e.2.fd ∧ g.token = e.1 ∧
      (g.output = true ↔ e.2.output.empty = false) ∧
      (g.input = true ↔ e.2.streaming = false ∧ e.2.responding = false)) ∧
    (∀ g ∈ s.reactor.epoll, ∀ x', s'.reactor.sessions.get g.token = some x' →
      ∃ x, s.reactor.sessions.get g.token = some x ∧ x.fd = g.fd ∧ x.Same x') := by
  let next := fun (s : System) e => if NewDescriptor [3, 4, 5, 6, 7] s e then step {} s e else none
  have hf : follow next (init 3 4 5 6 7) watched =
      some ((follow next (init 3 4 5 6 7) watched).getD (init 3 4 5 6 7)) := rfl
  have hf' : follow next ((follow next (init 3 4 5 6 7) watched).getD (init 3 4 5 6 7)) reused =
      some ((follow next ((follow next (init 3 4 5 6 7) watched).getD (init 3 4 5 6 7))
        reused).getD (init 3 4 5 6 7)) := rfl
  have hr := run_where_of_follow hf
  have hr' := run_where_of_follow hf'
  have h := no_lost_wakeup (by decide) hr
  exact ⟨_, _, hr, hr', rfl, h.1, h.2.2.2.2.2 _ _ hr'⟩

end System
end WebHtop.Server
