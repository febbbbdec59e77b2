import WebHtop.Server.Delivery

/-!
# Where the sessions of a state come from

A session after a step is one from before the step that the step left alone, gave a frame or
served, or one that the step accepted. The same is true of the sessions that a step closes, so
that what holds of every session is checked once for each of these cases.
-/

namespace WebHtop.Server

open WebHtop.Lib

/-- A session as Accept makes it. -/
def Reactor.fresh (r : Reactor) (fd : Nat) (streaming : Bool) : Session :=
  { fd, streaming, acceptedAt := r.clock, lastProgress := r.clock, log := [(r.clock, .accepted)] }

/-- How a step comes to a session. A broadcast of a new generation leaves no subscriber alone. -/
inductive Descends (latest : Option Published) (event : Event) (r : Reactor) : Nat × Session → Prop
  | kept {token : Nat} {s : Session} (hm : (token, s) ∈ r.sessions)
      (hb : event.broadcasts = true → ∀ p, latest = some p → p.sequence ≠ r.lastSequence →
        s.streaming = false) : Descends latest event r (token, s)
  | fed {token : Nat} {s : Session} {m : Meter} {published : Published}
      (hm : (token, s) ∈ r.sessions) (hs : s.streaming = true) (hclock : m.clock = r.clock)
      (hp : latest = some published) (hnew : published.sequence ≠ r.lastSequence)
      (hb : event.broadcasts = true) :
      Descends latest event r (token, (m.enqueue s published.frame).2.1)
  | served {token : Nat} {s : Session} {ready : Reactor.Ready} {recvs : List RecvResult}
      {sends : List SendResult} {limit : Buffer} {route : Bytes → Buffer}
      (hm : (token, s) ∈ r.sessions) (he : event = .session token ready recvs sends limit route) :
      Descends latest event r
        (token, (Meter.serve limit route token ready recvs sends s r.toMeter).2.1)
  | joined {fd : Nat} {streaming : Bool} (he : event = .accept streaming (.descriptor fd))
      (hnone : streaming = false ∨ latest = none) :
      Descends latest event r (r.nextToken, r.fresh fd streaming)
  | greeted {fd : Nat} {published : Published} (he : event = .accept true (.descriptor fd))
      (hp : latest = some published) :
      Descends latest event r
        (r.nextToken, (r.toMeter.enqueue (r.fresh fd true) published.frame).2.1)

/-- The sessions of a state and the ones closed on the way to it. -/
structure Lineage (latest : Option Published) (event : Event) (r r' : Reactor) : Prop where
  live : ∀ e ∈ r'.sessions, Descends latest event r e
  closed : ∀ e ∈ r'.closed, e ∈ r.closed ∨ Descends latest event r e

namespace Lineage

variable {config : ReactorConfig} {latest : Option Published} {event : Event} {r r' : Reactor}

/-- A step that is no broadcast leaves a session alone. -/
theorem alone {e : Nat × Session} (h : e ∈ r.sessions) (hb : event.broadcasts = false) :
    Descends latest event r e :=
  .kept h fun hf => absurd (hb.symm.trans hf) (by simp)

theorem same (hb : event.broadcasts = false) (hs : ∀ e ∈ r'.sessions, e ∈ r.sessions)
    (hc : ∀ e ∈ r'.closed, e ∈ r.closed ∨ e ∈ r.sessions) : Lineage latest event r r' :=
  ⟨fun e he => alone (hs e he) hb, fun e he => (hc e he).imp_right fun h => alone h hb⟩

/-! ## Close and Sweep -/

theorem mem_close (r : Reactor) (token : Nat) (e : Nat × Session) :
    (e ∈ (r.close token).sessions → e ∈ r.sessions) ∧
      (e ∈ (r.close token).closed → e ∈ r.closed ∨ e ∈ r.sessions) := by
  unfold Reactor.close
  cases hg : r.sessions.get token with
  | none => exact ⟨id, .inl⟩
  | some s =>
      refine ⟨fun he => (Table.mem_erase_iff.mp he).1, fun he => ?_⟩
      rcases List.mem_append.mp he with he | he
      · exact .inl he
      · exact .inr (List.mem_singleton.mp he ▸ Table.mem_of_get hg)

/-- Close of a session that has just been put back. -/
theorem mem_close_set {token : Nat} {s : Session} (hg : r.sessions.get token = some s) (s' : Session)
    (m : Meter) (rejected : Nat) (e : Nat × Session) :
    (e ∈ (Reactor.close { r with toMeter := m, sessions := r.sessions.set token s', rejected }
        token).sessions → e ∈ r.sessions ∧ e.1 ≠ token) ∧
      (e ∈ (Reactor.close { r with toMeter := m, sessions := r.sessions.set token s', rejected }
        token).closed → e ∈ r.closed ∨ e = (token, s')) := by
  have hset : (r.sessions.set token s').get token = some s' :=
    Table.get_set_self (Table.mem_keys_of_get hg)
  simp only [Reactor.close, hset, Reactor.unregister]
  refine ⟨fun he => ?_, fun he => ?_⟩
  · rw [Table.erase_set] at he
    exact Table.mem_erase_iff.mp he
  · rcases List.mem_append.mp he with he | he
    · exact .inl he
    · exact .inr (List.mem_singleton.mp he)

theorem mem_sweep (config : ReactorConfig) (r : Reactor) (e : Nat × Session) :
    (e ∈ (r.sweep config).sessions → e ∈ r.sessions) ∧
      (e ∈ (r.sweep config).closed → e ∈ r.closed ∨ e ∈ r.sessions) := by
  have hone : ∀ (q : Reactor) (token : Nat),
      (e ∈ (Reactor.sweepOne config q token).sessions → e ∈ q.sessions) ∧
        (e ∈ (Reactor.sweepOne config q token).closed → e ∈ q.closed ∨ e ∈ q.sessions) := by
    intro q token
    unfold Reactor.sweepOne
    split
    · exact ⟨id, .inl⟩
    · split
      · exact mem_close { q with timeouts := q.timeouts + 1 } token e
      · exact ⟨id, .inl⟩
  have hfold : (e ∈ (r.sessions.keys.foldl (Reactor.sweepOne config) r).sessions → e ∈ r.sessions) ∧
      (e ∈ (r.sessions.keys.foldl (Reactor.sweepOne config) r).closed →
        e ∈ r.closed ∨ e ∈ r.sessions) := by
    refine List.foldlRecOn _ _ (motive := fun q : Reactor => (e ∈ q.sessions → e ∈ r.sessions) ∧
      (e ∈ q.closed → e ∈ r.closed ∨ e ∈ r.sessions)) ⟨id, .inl⟩ fun q hq token _ => ?_
    obtain ⟨hlive, hclosed⟩ := hone q token
    exact ⟨fun he => hq.1 (hlive he), fun he => (hclosed he).elim hq.2 fun h => .inr (hq.1 h)⟩
  unfold Reactor.sweep
  simp only
  split <;> exact hfold

/-! ## Broadcast -/

/-- The session was given the frame. -/
def Given (published : Published) (r : Reactor) (e : Nat × Session) : Prop :=
  ∃ (s : Session) (m : Meter), (e.1, s) ∈ r.sessions ∧ s.streaming = true ∧ m.clock = r.clock ∧
    e.2 = (m.enqueue s published.frame).2.1

/-- The turn of one session in a broadcast. -/
theorem mem_broadcastTo (published : Published) (hn : r.sessions.keys.Nodup) (token : Nat)
    (e : Nat × Session) :
    (Reactor.broadcastTo published r token).clock = r.clock ∧
      (e ∈ (Reactor.broadcastTo published r token).sessions →
        (e ∈ r.sessions ∧ (e.1 = token → e.2.streaming = false)) ∨
          (e.1 = token ∧ Given published r e)) ∧
      (e ∈ (Reactor.broadcastTo published r token).closed →
        e ∈ r.closed ∨ (e.1 = token ∧ Given published r e)) := by
  have hget : e ∈ r.sessions → r.sessions.get e.1 = some e.2 := fun hm => Table.get_of_mem hn hm
  cases hg : r.sessions.get token with
  | none =>
      have hsame : Reactor.broadcastTo published r token = r := by
        simp only [Reactor.broadcastTo, hg]
      rw [hsame]
      refine ⟨rfl, fun he => .inl ⟨he, fun heq => ?_⟩, .inl⟩
      have := hget he
      rw [heq, hg] at this
      cases this
  | some s =>
      cases hstream : s.streaming with
      | false =>
          have hsame : Reactor.broadcastTo published r token = r := by
            simp [Reactor.broadcastTo, hg, hstream]
          rw [hsame]
          refine ⟨rfl, fun he => .inl ⟨he, fun heq => ?_⟩, .inl⟩
          have := hget he
          rw [heq, hg] at this
          exact (Option.some.inj this) ▸ hstream
      | true =>
          have hgiven : Given published r (token, (r.toMeter.enqueue s published.frame).2.1) :=
            ⟨s, r.toMeter, Table.mem_of_get hg, hstream, rfl, rfl⟩
          have hclock := Meter.enqueue_clock r.toMeter s published.frame
          simp only [Reactor.broadcastTo, hg, hstream, Bool.not_true, Bool.false_eq_true, ↓reduceIte]
          split
          · refine ⟨hclock, fun he => ?_, .inl⟩
            rcases (Table.mem_set_iff (Table.mem_keys_of_get hg)).mp he with rfl | ⟨he, hne⟩
            · exact .inr ⟨rfl, hgiven⟩
            · exact .inl ⟨he, fun heq => absurd heq hne⟩
          · obtain ⟨hlive, hclosed⟩ := mem_close_set hg (r.toMeter.enqueue s published.frame).2.1
              (r.toMeter.enqueue s published.frame).2.2 (r.rejected + 1) e
            refine ⟨?_, fun he => ?_, fun he => ?_⟩
            · unfold Reactor.close
              split <;> exact hclock
            · obtain ⟨hm, hne⟩ := hlive he
              exact .inl ⟨hm, fun heq => absurd heq hne⟩
            · rcases hclosed he with he | rfl
              · exact .inl he
              · exact .inr ⟨rfl, hgiven⟩

/-- Each session has one turn. -/
theorem mem_broadcast_fold (published : Published) (tokens : List Nat) (hnodup : tokens.Nodup)
    (ha : r.Accounts config) (e : Nat × Session) :
    (e ∈ (tokens.foldl (Reactor.broadcastTo published) r).sessions →
        (e ∈ r.sessions ∧ (e.1 ∈ tokens → e.2.streaming = false)) ∨
          (e.1 ∈ tokens ∧ Given published r e)) ∧
      (e ∈ (tokens.foldl (Reactor.broadcastTo published) r).closed →
        e ∈ r.closed ∨ (e.1 ∈ tokens ∧ Given published r e)) := by
  induction tokens generalizing r with
  | nil => exact ⟨fun he => .inl ⟨he, by simp⟩, .inl⟩
  | cons token tokens ih =>
      obtain ⟨hnew, hnodup⟩ := List.nodup_cons.mp hnodup
      obtain ⟨hclock, hlive, hclosed⟩ := mem_broadcastTo published ha.distinct token e
      obtain ⟨ihlive, ihclosed⟩ := ih hnodup (Reactor.accounts_broadcastTo ha published token)
      -- A session whose turn comes later has not been touched yet.
      have hlater : e.1 ∈ tokens ∧ Given published (Reactor.broadcastTo published r token) e →
          e.1 ∈ token :: tokens ∧ Given published r e := by
        rintro ⟨hmem, s, m, hs, hstream, hm, he⟩
        refine ⟨List.mem_cons_of_mem _ hmem, s, m, ?_, hstream, hm.trans hclock, he⟩
        rcases (mem_broadcastTo published ha.distinct token (e.1, s)).2.1 hs with ⟨hs, -⟩ | ⟨heq, -⟩
        · exact hs
        · exact absurd (heq ▸ hmem) hnew
      refine ⟨fun he => ?_, fun he => ?_⟩
      · rcases ihlive he with ⟨he, hstream⟩ | hgiven
        · rcases hlive he with ⟨he, hfirst⟩ | ⟨heq, hgiven⟩
          · refine .inl ⟨he, fun hmem => ?_⟩
            rcases List.mem_cons.mp hmem with heq | hmem
            · exact hfirst heq
            · exact hstream hmem
          · exact .inr ⟨heq ▸ List.mem_cons_self, hgiven⟩
        · exact .inr (hlater hgiven)
      · rcases ihclosed he with he | hgiven
        · rcases hclosed he with he | ⟨heq, hgiven⟩
          · exact .inl he
          · exact .inr ⟨heq ▸ List.mem_cons_self, hgiven⟩
        · exact .inr (hlater hgiven)

theorem of_broadcast (ha : r.Accounts config) (hb : event.broadcasts = true) :
    Lineage latest event r (r.broadcast latest) := by
  have hkept : (∀ p, latest = some p → p.sequence = r.lastSequence) → Lineage latest event r r :=
    fun hold => ⟨fun e he => .kept he fun _ p hp hne => absurd (hold p hp) hne, fun e he => .inl he⟩
  cases latest with
  | none => exact hkept fun p hp => nomatch hp
  | some published =>
      simp only [Reactor.broadcast]
      split
      · rename_i hold
        exact hkept fun p hp => Option.some.inj hp ▸ hold
      · rename_i hnew
        have hfold := fun e => mem_broadcast_fold published
          (r := { r with lastSequence := published.sequence }) r.sessions.keys ha.distinct ha e
        have hfed : ∀ e : Nat × Session, Given published r e → Descends (some published) event r e := by
          rintro ⟨token, s'⟩ ⟨s, m, hs, hstream, hm, rfl⟩
          exact .fed hs hstream hm rfl hnew hb
        refine ⟨fun e he => ?_, fun e he => ?_⟩
        · rcases (hfold e).1 he with ⟨he, hstream⟩ | ⟨-, hgiven⟩
          · exact .kept he fun _ _ _ _ => hstream (List.mem_map_of_mem (f := Prod.fst) he)
          · exact hfed e hgiven
        · exact ((hfold e).2 he).imp_right fun hgiven => hfed e hgiven.2

/-! ## Accept and the session branch -/

theorem of_accept (streaming : Bool) (result : Reactor.AcceptResult) :
    Lineage latest (.accept streaming result) r (r.accept config latest streaming result) := by
  have hsame : ∀ r' : Reactor, r'.sessions = r.sessions → r'.closed = r.closed →
      Lineage latest (.accept streaming result) r r' := fun r' hs hc =>
    .same rfl (fun e he => hs ▸ he) fun e he => .inl (hc ▸ he)
  have hadded : ∀ e : Nat × Session, e ∈ r.sessions →
      Descends latest (.accept streaming result) r e := fun e he => alone he rfl
  cases result with
  | interrupted => exact hsame _ rfl rfl
  | wouldBlock => exact hsame _ rfl rfl
  | exhausted => exact hsame _ rfl rfl
  | failed => exact hsame _ rfl rfl
  | descriptor fd =>
      simp only [Reactor.accept]
      split
      · exact hsame _ rfl rfl
      · split
        · rename_i published
          have hgreeted : Descends (some published) (.accept true (.descriptor fd)) r
              (r.nextToken, (r.toMeter.enqueue (r.fresh fd true) published.frame).2.1) :=
            .greeted rfl rfl
          unfold Reactor.fresh at hgreeted
          split
          · rename_i s' m' he
            rw [he] at hgreeted
            refine ⟨fun e he => ?_, fun e he => .inl he⟩
            rcases List.mem_append.mp he with he | he
            · exact hadded e he
            · exact List.mem_singleton.mp he ▸ hgreeted
          · rename_i s' m' he
            rw [he] at hgreeted
            refine ⟨hadded, fun e he => ?_⟩
            rcases List.mem_append.mp he with he | he
            · exact .inl he
            · exact .inr (List.mem_singleton.mp he ▸ hgreeted)
        · rename_i hnone
          refine ⟨fun e he => ?_, fun e he => .inl he⟩
          rcases List.mem_append.mp he with he | he
          · exact hadded e he
          · obtain rfl := List.mem_singleton.mp he
            refine .joined rfl ?_
            cases streaming with
            | false => exact .inl rfl
            | true =>
                cases latest with
                | none => exact .inr rfl
                | some p => exact absurd rfl (hnone p rfl)

theorem of_handle (token : Nat) (ready : Reactor.Ready) (recvs : List RecvResult)
    (sends : List SendResult) (limit : Buffer) (route : Bytes → Buffer) :
    Lineage latest (.session token ready recvs sends limit route) r
      (r.handle limit route token ready recvs sends) := by
  cases hg : r.sessions.get token with
  | none =>
      have hsame : r.handle limit route token ready recvs sends = r := by
        simp only [Reactor.handle, hg]
      rw [hsame]
      exact .same rfl (fun _ => id) fun _ => .inl
  | some s =>
      have hserved : Descends latest (.session token ready recvs sends limit route) r
          (token, (Meter.serve limit route token ready recvs sends s r.toMeter).2.1) :=
        .served (Table.mem_of_get hg) rfl
      rw [Meter.handle_eq limit route ready recvs sends hg]
      simp only
      split
      · refine ⟨fun e he => ?_, fun e he => .inl he⟩
        rcases (Table.mem_set_iff (Table.mem_keys_of_get hg)).mp he with rfl | ⟨he, -⟩
        · exact hserved
        · exact alone he rfl
      · have hclose := mem_close_set hg
          (Meter.serve limit route token ready recvs sends s r.toMeter).2.1
          (Meter.serve limit route token ready recvs sends s r.toMeter).2.2 r.rejected
        refine ⟨fun e he => alone ((hclose e).1 he).1 rfl, fun e he => ?_⟩
        rcases (hclose e).2 he with he | rfl
        · exact .inl he
        · exact .inr hserved

/-- What a step of the reactor does to the sessions. -/
theorem of_acts (ha : System.Acts config latest r event r') (hacc : r.Accounts config) :
    Lineage latest event r r' := by
  cases ha with
  | paused => exact .same rfl (fun _ => id) fun _ => .inl
  | accept streaming result => exact of_accept streaming result
  | handle token ready recvs sends limit route => exact of_handle token ready recvs sends limit route
  | notification => exact of_broadcast hacc rfl
  | timerBroadcast => exact of_broadcast hacc rfl
  | sweep => exact .same rfl (fun e => (mem_sweep config r e).1) fun e => (mem_sweep config r e).2
  | rehash i => exact .same rfl (fun e he => (swapAt_perm i r.sessions).subset he) fun _ => .inl
  | elapse n => exact .same rfl (fun _ => id) fun _ => .inl
  | shutdown =>
      exact .same rfl (fun e he => absurd he List.not_mem_nil) fun e he => List.mem_append.mp he

end Lineage
end WebHtop.Server
