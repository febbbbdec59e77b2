import WebHtop.Server.Chronicle
import WebHtop.Server.Generations

/-!
# What sessions are given

Three results over every run of worker and reactor: the newest generation reaches every
subscriber, an HTTP session is given one response and closed behind it, and the deadlines
are those of the log.
-/

namespace WebHtop.Server

open WebHtop.Lib

namespace Reactor

variable {config : ReactorConfig} {r : Reactor}

/-- The chronicle of a whole reactor. -/
def Chronicle (r : Reactor) : Prop := Chronicled r.toMeter r.sessions r.closed r.nextToken

theorem chronicle_init (a b c d e : Nat) : (init a b c d e).Chronicle :=
  ⟨by simp [init, register], by simp [init, register], by simp [init, register],
    by simp [init, register, Table.keys], by simp [init, register, Table.keys],
    by simp [init, register, Table.keys], by simp [init, register]⟩

/-- Close, after its session has changed. -/
theorem chronicle_left (h : r.Chronicle) {token : Nat} {s s' : Session} {m' : Meter}
    (hg : r.sessions.get token = some s) (hle : r.clock ≤ m'.clock)
    (hcar : Carries token r.toMeter s m' s') (hp : s'.Past) (timeouts rejected : Nat) :
    (close { r with toMeter := m', sessions := r.sessions.set token s', timeouts, rejected }
      token).Chronicle := by
  have hset : (r.sessions.set token s').get token = some s' :=
    Table.get_set_self (Table.mem_keys_of_get hg)
  simp only [close, hset, unregister]
  have hcarries : Carries token r.toMeter s (m'.subtract s'.output.bytes) s' :=
    ⟨hcar.same, hcar.chunks⟩
  have hless : r.clock ≤ (m'.subtract s'.output.bytes).clock := hle
  have := Chronicled.left h hg hless hcarries hp
  rw [← Table.erase_set r.sessions token s'] at this
  exact this

theorem chronicle_close (h : r.Chronicle) (token timeouts : Nat) :
    (close { r with timeouts } token).Chronicle := by
  cases hg : r.sessions.get token with
  | none =>
      simp only [close, hg]
      exact h
  | some s =>
      simp only [close, hg, unregister]
      have hcarries : Carries token r.toMeter s (r.toMeter.subtract s.output.bytes) s :=
        ⟨.refl s, [], (List.append_nil _).symm, by simp, (List.append_nil _).symm⟩
      exact Chronicled.left h hg (Nat.le_refl _) hcarries (h.live _ (Table.mem_of_get hg)).past

theorem chronicle_accept (h : r.Chronicle) (latest : Option Published) (streaming : Bool)
    (result : AcceptResult) : (r.accept config latest streaming result).Chronicle := by
  cases result with
  | interrupted => exact h
  | wouldBlock => exact h
  | exhausted => exact h
  | failed => exact h
  | descriptor fd =>
      simp only [accept]
      split
      · exact h
      · let s : Session :=
          { fd, streaming, acceptedAt := r.clock, lastProgress := r.clock,
            log := [(r.clock, .accepted)] }
        have hopen : s.Open r.clock := ⟨Session.told_accepted fd streaming r.clock,
          fun _ => ⟨fun _ => rfl, fun hf => absurd hf Bool.false_ne_true, List.pairwise_singleton _ _⟩,
          fun _ => rfl⟩
        split
        · rename_i published
          obtain ⟨hleaves, hclock⟩ := Meter.leaves_enqueue (m := r.toMeter) hopen rfl
            published.nonempty
          have hwire := Meter.enqueue_wire r.toMeter s published.frame
          have hsent := (Meter.enqueue_same r.toMeter s published.frame).2
          split
          · rename_i s' m' he
            rw [he] at hleaves hclock hwire hsent
            exact Chronicled.inserted h hclock hwire (hleaves.live rfl) hsent
          · rename_i s' m' he
            rw [he] at hleaves hclock hwire hsent
            exact Chronicled.refused h hclock hwire (hleaves.past rfl) hsent
        · exact Chronicled.inserted h rfl rfl ⟨hopen, fun hf => absurd hf Bool.false_ne_true⟩ rfl

theorem chronicle_broadcastTo (h : r.Chronicle) (published : Published) (token : Nat) :
    (broadcastTo published r token).Chronicle := by
  cases hg : r.sessions.get token with
  | none =>
      have hsame : broadcastTo published r token = r := by simp only [broadcastTo, hg]
      rwa [hsame]
  | some s =>
      cases hstream : s.streaming with
      | false =>
          have hsame : broadcastTo published r token = r := by simp [broadcastTo, hg, hstream]
          rwa [hsame]
      | true =>
          obtain ⟨hleaves, hclock⟩ := Meter.leaves_enqueue (m := r.toMeter)
            (h.live _ (Table.mem_of_get hg)).toOpen hstream published.nonempty
          have hcar := Meter.carries_enqueue token r.toMeter s published.frame
          simp only [broadcastTo, hg, hstream, Bool.not_true, Bool.false_eq_true, ↓reduceIte]
          split
          · rename_i halive
            exact Chronicled.kept h hg (Nat.le_of_eq hclock.symm) hcar
              (hclock ▸ hleaves.live halive)
          · rename_i halive
            exact chronicle_left h hg (Nat.le_of_eq hclock.symm) hcar
              (hleaves.past (by simpa using halive)) _ _

theorem chronicle_broadcast (h : r.Chronicle) (latest : Option Published) :
    (r.broadcast latest).Chronicle := by
  unfold broadcast
  split
  · exact h
  · split
    · exact h
    · exact List.foldlRecOn _ _ (motive := Chronicle) h
        fun r hr token _ => chronicle_broadcastTo hr _ token

theorem chronicle_sweepOne (h : r.Chronicle) (token : Nat) :
    (sweepOne config r token).Chronicle := by
  unfold sweepOne
  split
  · exact h
  · split
    · exact chronicle_close h token _
    · exact h

theorem chronicle_sweep (h : r.Chronicle) : (r.sweep config).Chronicle := by
  have hf : (r.sessions.keys.foldl (sweepOne config) r).Chronicle :=
    List.foldlRecOn _ _ (motive := Chronicle) h fun r hr token _ => chronicle_sweepOne hr token
  unfold sweep
  simp only
  split <;> exact hf

theorem chronicle_handle (h : r.Chronicle) (limit : Buffer) (route : Bytes → Buffer)
    (token : Nat) (ready : Ready) (recvs : List RecvResult) (sends : List SendResult) :
    (r.handle limit route token ready recvs sends).Chronicle := by
  cases hg : r.sessions.get token with
  | none =>
      have hsame : r.handle limit route token ready recvs sends = r := by
        simp only [handle, hg]
      rwa [hsame]
  | some s =>
      obtain ⟨hleaves, hle, hcar⟩ := Meter.serve_leaves limit route token ready recvs
        sends (h.live _ (Table.mem_of_get hg))
      rw [Meter.handle_eq limit route ready recvs sends hg]
      simp only
      split
      · rename_i halive
        exact Chronicled.kept h hg hle hcar (hleaves.live halive)
      · rename_i halive
        exact chronicle_left h hg hle hcar (hleaves.past (by simpa using halive)) _ _

theorem chronicle_shutdown (h : r.Chronicle) : r.shutdown.Chronicle := Chronicled.cleared h 0

end Reactor

namespace System

variable {config : ReactorConfig} {s s' : System}

theorem chronicle_acts {latest : Option Published} {r r' : Reactor} {e : Event}
    (ha : Acts config latest r e r') (h : r.Chronicle) : r'.Chronicle := by
  cases ha with
  | paused => exact h
  | accept streaming result => exact Reactor.chronicle_accept h latest streaming result
  | handle token ready recvs sends limit route =>
      exact Reactor.chronicle_handle h limit route token ready recvs sends
  | notification => exact Reactor.chronicle_broadcast h latest
  | timerBroadcast => exact Reactor.chronicle_broadcast h latest
  | sweep => exact Reactor.chronicle_sweep h
  | rehash i => exact Chronicled.reordered h (swapAt_perm i r.sessions)
  | elapse n => exact Chronicled.elapsed h n
  | shutdown => exact Reactor.chronicle_shutdown h

theorem chronicle_step {e : Event} (hs : Step config s e s') (h : s.reactor.Chronicle) :
    s'.reactor.Chronicle := by
  rcases step_cases hs with ⟨hr, -⟩ | ⟨hr, -⟩ | ⟨ha, -⟩
  · rwa [hr]
  · rwa [hr]
  · exact chronicle_acts ha h

variable {httpListener streamListener signalFd notificationFd timer : Nat} {es : List Event}

theorem chronicle_run
    (hr : Run (Step config) (init httpListener streamListener signalFd notificationFd timer) es s) :
    s.reactor.Chronicle :=
  hr.invariant (I := fun s => s.reactor.Chronicle) (Reactor.chronicle_init _ _ _ _ _)
    fun h hs => chronicle_step hs h

/-! ## The newest generation -/

/-- The number of the newest frame that was enqueued on a session, 0 for none. -/
def newest (x : Session) : Nat := ((enqueuedOf x.log).getLast?.bind Buffer.sequence).getD 0

theorem newest_enqueue (m : Meter) (x : Session) (published : Published) :
    newest (m.enqueue x published.frame).2.1 = published.sequence := by
  have hlast : (enqueuedOf (m.enqueue x published.frame).2.1.log).getLast? =
      some published.frame := by
    rcases Meter.enqueue_cases m x published.frame with ⟨_, he⟩ | ⟨_, he⟩
    · rw [he]
      show (enqueuedOf (x.log ++ [(m.clock, .enqueued published.frame)] ++
        [(m.clock, .refused)])).getLast? = _
      rw [enqueuedOf_append, enqueuedOf_append]
      exact (congrArg List.getLast? (List.append_nil _)).trans List.getLast?_concat
    · rw [he]
      show (enqueuedOf (x.log ++ [(m.clock, .enqueued published.frame)])).getLast? = _
      rw [enqueuedOf_append]
      exact List.getLast?_concat
  rw [newest, hlast, Option.bind_some, published.tagged]
  rfl

/-- Every subscriber has been given a generation at least as new as `last_sequence_`. -/
def Fed (r : Reactor) : Prop :=
  ∀ e ∈ r.sessions, e.2.streaming = true → r.lastSequence ≤ newest e.2

theorem fed_erase {r : Reactor} (h : Fed r) (token : Nat) : Fed (r.close token) := by
  cases hg : r.sessions.get token with
  | none =>
      simp only [Reactor.close, hg]
      exact h
  | some x =>
      simp only [Reactor.close, hg]
      exact fun e he => h e (Table.mem_erase_iff.mp he).1

theorem fed_accept {r : Reactor} (h : Fed r) {latest : Option Published}
    (hl : r.lastSequence ≤ (latest.map Published.sequence).getD 0) (streaming : Bool)
    (result : Reactor.AcceptResult) : Fed (r.accept config latest streaming result) := by
  cases result with
  | interrupted => exact h
  | wouldBlock => exact h
  | exhausted => exact h
  | failed => exact h
  | descriptor fd =>
      simp only [Reactor.accept]
      split
      · exact h
      · let x : Session :=
          { fd, streaming, acceptedAt := r.clock, lastProgress := r.clock,
            log := [(r.clock, .accepted)] }
        -- A session that joins has the generation loaded for it, or none is published.
        have hinsert : ∀ (m : Meter) (x' : Session),
            (x'.streaming = true → r.lastSequence ≤ newest x') →
            ∀ e ∈ r.sessions ++ [(r.nextToken, x')], e.2.streaming = true →
              r.lastSequence ≤ newest e.2 := by
          intro m x' hx' e he hs
          rcases List.mem_append.mp he with he | he
          · exact h e he hs
          · obtain rfl := List.mem_singleton.mp he
            exact hx' hs
        split
        · rename_i published
          have hnew := newest_enqueue r.toMeter x published
          split
          · rename_i x' m' he
            rw [he] at hnew
            exact hinsert m' x' fun _ => hnew ▸ hl
          · exact h
        · rename_i hnone
          refine hinsert r.toMeter x fun hs => ?_
          cases latest with
          | none => exact hl.trans (Nat.zero_le _)
          | some published => exact absurd rfl (hnone published hs)

/-- Broadcast gives the generation to one subscriber and leaves the others alone. -/
theorem mem_broadcastTo {published : Published} {r : Reactor} (hn : r.sessions.keys.Nodup)
    {token : Nat} {e : Nat × Session}
    (he : e ∈ (Reactor.broadcastTo published r token).sessions) :
    (e.2.streaming = true → newest e.2 = published.sequence) ∨
      (e ∈ r.sessions ∧ e.1 ≠ token) := by
  have hget : e ∈ r.sessions → r.sessions.get e.1 = some e.2 := fun hm => Table.get_of_mem hn hm
  cases hg : r.sessions.get token with
  | none =>
      rw [Reactor.broadcastTo, hg] at he
      refine .inr ⟨he, fun heq => ?_⟩
      have := hget he
      rw [heq, hg] at this
      cases this
  | some x =>
      cases hstream : x.streaming with
      | false =>
          simp only [Reactor.broadcastTo, hg, hstream, Bool.not_false, ↓reduceIte] at he
          by_cases heq : e.1 = token
          · have hx := hget he
            rw [heq, hg] at hx
            obtain rfl := Option.some.inj hx
            exact .inl fun hs => absurd (hstream.symm.trans hs) (by simp)
          · exact .inr ⟨he, heq⟩
      | true =>
          have hk := Table.mem_keys_of_get hg
          have hset : ∀ e ∈ r.sessions.set token (r.toMeter.enqueue x published.frame).2.1,
              (e.2.streaming = true → newest e.2 = published.sequence) ∨
                (e ∈ r.sessions ∧ e.1 ≠ token) := by
            intro e he
            rcases (Table.mem_set_iff hk).mp he with rfl | he
            · exact .inl fun _ => newest_enqueue _ _ _
            · exact .inr he
          simp only [Reactor.broadcastTo, hg, hstream, Bool.not_true, Bool.false_eq_true,
            ↓reduceIte] at he
          split at he
          · exact hset e he
          · refine hset e ?_
            simp only [Reactor.close, Table.get_set_self hk] at he
            exact (Table.mem_erase_iff.mp he).1

theorem mem_broadcast_fold {published : Published} (tokens : List Nat) {r : Reactor}
    (ha : r.Accounts config) {e : Nat × Session}
    (he : e ∈ (tokens.foldl (Reactor.broadcastTo published) r).sessions) :
    (e.2.streaming = true → newest e.2 = published.sequence) ∨
      (e ∈ r.sessions ∧ e.1 ∉ tokens) := by
  induction tokens generalizing r with
  | nil => exact .inr ⟨he, by simp⟩
  | cons token tokens ih =>
      rcases ih (Reactor.accounts_broadcastTo ha published token) he with hnew | ⟨hm, hnot⟩
      · exact .inl hnew
      · rcases mem_broadcastTo ha.distinct hm with hnew | ⟨hm, hne⟩
        · exact .inl hnew
        · exact .inr ⟨hm, by simp [hne, hnot]⟩

theorem lastSequence_fold (published : Published) (tokens : List Nat) (r : Reactor) :
    (tokens.foldl (Reactor.broadcastTo published) r).lastSequence = r.lastSequence := by
  induction tokens generalizing r with
  | nil => rfl
  | cons token tokens ih =>
      rw [List.foldl_cons, ih]
      unfold Reactor.broadcastTo
      cases hg : r.sessions.get token with
      | none => rfl
      | some x =>
          simp only
          split
          · rfl
          · split
            · rfl
            · unfold Reactor.close
              split <;> rfl

/-- What Broadcast leaves has been fed with what it loaded. -/
theorem fed_broadcast {r : Reactor} (ha : r.Accounts config) (h : Fed r)
    {latest : Option Published} {bound : Nat} (hl : r.lastSequence ≤ bound)
    (hb : ∀ p, latest = some p → p.sequence = bound) :
    Fed (r.broadcast latest) ∧ (r.broadcast latest).lastSequence ≤ bound := by
  cases latest with
  | none => exact ⟨h, hl⟩
  | some published =>
      simp only [Reactor.broadcast]
      split
      · exact ⟨h, hl⟩
      · have hseq := lastSequence_fold published r.sessions.keys
          { r with lastSequence := published.sequence }
        refine ⟨?_, hseq ▸ Nat.le_of_eq (hb published rfl)⟩
        intro e he hs
        rw [hseq]
        have hacc : Reactor.Accounts config { r with lastSequence := published.sequence } := ha
        rcases mem_broadcast_fold _ hacc he with hnew | ⟨hm, hnot⟩
        · exact Nat.le_of_eq (hnew hs).symm
        · exact absurd (List.mem_map_of_mem (f := Prod.fst) hm) hnot

theorem fed_sweep (config : ReactorConfig) {r : Reactor} (h : Fed r) : Fed (r.sweep config) ∧
    (r.sweep config).lastSequence = r.lastSequence := by
  have hone : ∀ r : Reactor, Fed r → ∀ token, Fed (Reactor.sweepOne config r token) ∧
      (Reactor.sweepOne config r token).lastSequence = r.lastSequence := by
    intro r hr token
    unfold Reactor.sweepOne
    split
    · exact ⟨hr, rfl⟩
    · split
      · refine ⟨fed_erase (r := { r with timeouts := r.timeouts + 1 }) hr token, ?_⟩
        unfold Reactor.close
        split <;> rfl
      · exact ⟨hr, rfl⟩
  have hf : Fed (r.sessions.keys.foldl (Reactor.sweepOne config) r) ∧
      (r.sessions.keys.foldl (Reactor.sweepOne config) r).lastSequence = r.lastSequence :=
    List.foldlRecOn _ _ (motive := fun r' => Fed r' ∧ r'.lastSequence = r.lastSequence) ⟨h, rfl⟩
      fun r' hr token _ => ⟨(hone r' hr.1 token).1, (hone r' hr.1 token).2.trans hr.2⟩
  unfold Reactor.sweep
  simp only
  split <;> exact hf

theorem fed_handle {r : Reactor} (hc : r.Chronicle) (h : Fed r) (limit : Buffer)
    (route : Bytes → Buffer) (token : Nat) (ready : Reactor.Ready) (recvs : List RecvResult)
    (sends : List SendResult) :
    Fed (r.handle limit route token ready recvs sends) ∧
      (r.handle limit route token ready recvs sends).lastSequence = r.lastSequence := by
  cases hg : r.sessions.get token with
  | none =>
      have hsame : r.handle limit route token ready recvs sends = r := by
        simp only [Reactor.handle, hg]
      rw [hsame]
      exact ⟨h, rfl⟩
  | some x =>
      have hk := Table.mem_keys_of_get hg
      have hm := Table.mem_of_get hg
      obtain ⟨-, -, hcar⟩ := Meter.serve_leaves limit route token ready recvs sends
        (hc.live _ hm)
      have hset : ∀ e ∈ r.sessions.set token
          (Meter.serve limit route token ready recvs sends x r.toMeter).2.1,
          e.2.streaming = true → r.lastSequence ≤ newest e.2 := by
        intro e he hs
        rcases (Table.mem_set_iff hk).mp he with rfl | ⟨he, -⟩
        · have hstream := hcar.same.streaming.symm.trans hs
          have hframes := Meter.serve_frames (m := r.toMeter) limit route token ready
            recvs sends hstream
          have := h _ hm hstream
          rwa [newest, ← hframes] at this
        · exact h e he hs
      rw [Meter.handle_eq limit route ready recvs sends hg]
      simp only
      split
      · exact ⟨hset, rfl⟩
      · refine ⟨fed_erase (r := { r with toMeter := _, sessions := _ }) hset token, ?_⟩
        unfold Reactor.close
        split <;> rfl

/-- The books of the reactor, with the generation of the last broadcast behind the newest. -/
structure Feeding (config : ReactorConfig) (s : System) : Prop where
  accounts : s.reactor.Accounts config
  chronicle : s.reactor.Chronicle
  fed : Fed s.reactor
  behind : s.reactor.lastSequence ≤ s.latestSequence
  numbered : s.latestSequence ≤ s.sequence

theorem fed_acts {latest : Option Published} {r r' : Reactor} {event : Event} {bound : Nat}
    (ha : Acts config latest r event r') (hacc : r.Accounts config) (hc : r.Chronicle) (h : Fed r)
    (hl : r.lastSequence ≤ bound) (hb : (latest.map Published.sequence).getD 0 = bound) :
    Fed r' ∧ r'.lastSequence ≤ bound := by
  have hsome : ∀ p, latest = some p → p.sequence = bound := by
    rintro p rfl
    exact hb
  cases ha with
  | paused => exact ⟨h, hl⟩
  | accept streaming result =>
      refine ⟨fed_accept h (hb ▸ hl) streaming result, ?_⟩
      have hseq : (r.accept config latest streaming result).lastSequence = r.lastSequence := by
        cases result with
        | descriptor fd =>
            simp only [Reactor.accept]
            split
            · rfl
            · split
              · split <;> rfl
              · rfl
        | _ => rfl
      rwa [hseq]
  | handle token ready recvs sends limit route =>
      obtain ⟨hf, hs⟩ := fed_handle hc h limit route token ready recvs sends
      exact ⟨hf, hs ▸ hl⟩
  | notification => exact fed_broadcast hacc h hl hsome
  | timerBroadcast => exact fed_broadcast hacc h hl hsome
  | sweep =>
      obtain ⟨hf, hs⟩ := fed_sweep config h
      exact ⟨hf, hs ▸ hl⟩
  | rehash i => exact ⟨fun e he => h e ((swapAt_perm i r.sessions).subset he), hl⟩
  | elapse => exact ⟨h, hl⟩
  | shutdown => exact ⟨fun e he => absurd he List.not_mem_nil, hl⟩

theorem feeding_step {e : Event} (hs : Step config s e s') (h : s.Feeding config) :
    s'.Feeding config := by
  have hacc := accounts_step hs h.accounts
  have hc := chronicle_step hs h.chronicle
  have hbehind := h.behind
  have hnum := h.numbered
  rcases step_cases hs with ⟨hr, hseq, p, hp, hl⟩ | ⟨hr, hseq, hl⟩ | ⟨ha, hseq, hl⟩
  · have hnew : s'.latestSequence = s.sequence + 1 := by simp [latestSequence, hl, hp]
    refine ⟨hacc, hc, ?_, ?_, by omega⟩
    · rw [hr]
      exact h.fed
    · rw [hr]
      omega
  · have hsame : s'.latestSequence = s.latestSequence := by simp [latestSequence, hl]
    refine ⟨hacc, hc, ?_, ?_, by omega⟩
    · rw [hr]
      exact h.fed
    · rw [hr]
      omega
  · have hsame : s'.latestSequence = s.latestSequence := by simp [latestSequence, hl]
    obtain ⟨hf, hle⟩ := fed_acts ha h.accounts h.chronicle h.fed hbehind rfl
    exact ⟨hacc, hc, hf, by omega, by omega⟩

theorem feeding_run
    (hr : Run (Step config) (init httpListener streamListener signalFd notificationFd timer) es s) :
    s.Feeding config :=
  hr.invariant (I := Feeding config)
    ⟨Reactor.accounts_init _ _ _ _ _, Reactor.chronicle_init _ _ _ _ _,
      fun _ he => absurd he List.not_mem_nil, Nat.zero_le _, Nat.le_refl _⟩
    fun h hs => feeding_step hs h

/-! ## 64 bits -/

theorem nextToken_close (r : Reactor) (token : Nat) :
    (r.close token).nextToken = r.nextToken := by
  unfold Reactor.close
  split <;> rfl

theorem nextToken_foldl {f : Reactor → Nat → Reactor}
    (hf : ∀ r token, (f r token).nextToken = r.nextToken) (tokens : List Nat) (r : Reactor) :
    (tokens.foldl f r).nextToken = r.nextToken := by
  induction tokens generalizing r with
  | nil => rfl
  | cons token tokens ih => exact (ih _).trans (hf r token)

theorem nextToken_broadcast (latest : Option Published) (r : Reactor) :
    (r.broadcast latest).nextToken = r.nextToken := by
  unfold Reactor.broadcast
  split
  · rfl
  · split
    · rfl
    · refine nextToken_foldl (fun r token => ?_) _ _
      unfold Reactor.broadcastTo
      split
      · rfl
      · split
        · rfl
        · dsimp only
          split
          · rfl
          · exact nextToken_close _ _

theorem nextToken_sweep (config : ReactorConfig) (r : Reactor) :
    (r.sweep config).nextToken = r.nextToken := by
  have hfold : (r.sessions.keys.foldl (Reactor.sweepOne config) r).nextToken = r.nextToken := by
    refine nextToken_foldl (fun r token => ?_) _ _
    unfold Reactor.sweepOne
    split
    · rfl
    · split
      · exact nextToken_close _ _
      · rfl
  unfold Reactor.sweep
  dsimp only
  split <;> exact hfold

/-- Accept issues the tokens, one at a time. -/
theorem nextToken_acts {latest : Option Published} {r r' : Reactor} {event : Event}
    (ha : Acts config latest r event r') : r'.nextToken ≤ r.nextToken + 1 := by
  cases ha with
  | paused | rehash | elapse | shutdown => exact Nat.le_succ _
  | accept streaming result =>
      cases result with
      | descriptor fd =>
          simp only [Reactor.accept]
          split
          · exact Nat.le_succ _
          · split
            · split <;> exact Nat.le_refl _
            · exact Nat.le_refl _
      | _ => exact Nat.le_succ _
  | handle token ready recvs sends limit route =>
      refine Nat.le_succ_of_le (Nat.le_of_eq ?_)
      cases hg : r.sessions.get token with
      | none => simp only [Reactor.handle, hg]
      | some s =>
          rw [Meter.handle_eq limit route ready recvs sends hg]
          dsimp only
          split
          · rfl
          · exact nextToken_close _ _
  | notification | timerBroadcast =>
      exact Nat.le_succ_of_le (Nat.le_of_eq (nextToken_broadcast latest r))
  | sweep => exact Nat.le_succ_of_le (Nat.le_of_eq (nextToken_sweep config r))

/-- A step issues one token or one number at most. -/
theorem issues_step {e : Event} (hs : Step config s e s') :
    s'.reactor.nextToken + s'.sequence ≤ s.reactor.nextToken + s.sequence + 1 := by
  rcases step_cases hs with ⟨hr, hseq, -⟩ | ⟨hr, hseq, -⟩ | ⟨ha, hseq, -⟩
  · rw [hr]
    omega
  · rw [hr]
    omega
  · have := nextToken_acts ha
    omega

/-- Tokens and numbers of generations fit into 64 bits in every run that is not astronomically long. -/
theorem fits_run
    (hr : Run (Step config) (init httpListener streamListener signalFd notificationFd timer) es s)
    (hes : es.length + 16 < 2 ^ 64) :
    s.reactor.nextToken < 2 ^ 64 ∧ s.sequence < 2 ^ 64 ∧ s.reactor.lastSequence < 2 ^ 64 := by
  have hissued : s.reactor.nextToken + s.sequence ≤ 16 + es.length := by
    clear hes
    induction hr with
    | nil => exact Nat.le_refl 16
    | snoc _ hstep ih =>
        have := issues_step hstep
        rw [List.length_append, List.length_singleton]
        omega
  have hf := feeding_run hr
  have hbehind := hf.behind
  have hnumbered := hf.numbered
  omega

/-- The newest buffer enqueued on a live session is last in its queue, or has been sent
whole and the queue is empty. -/
theorem newest_waits {clock : Nat} {x : Session} (h : x.Live clock) {b : Buffer}
    (hb : (enqueuedOf x.log).getLast? = some b) :
    x.output.items.getLast? = some b ∨ (x.output.empty = true ∧ b.bytes <:+ sentOf x.log) := by
  have hnewest := h.told.kept.newest
  rw [historyOf_pushed, hb, h.told.queue] at hnewest
  cases hc : x.output.current with
  | some c =>
      left
      have hne : x.output.items ≠ [] := by simp [OutputQueue.items, hc]
      rwa [List.getLast?_append_of_ne_nil _ hne] at hnewest
  | none =>
      right
      have hitems : x.output.items = [] := by
        simp [OutputQueue.items, hc, (h.told.valid.idle hc).1]
      rw [hitems, List.append_nil] at hnewest
      obtain ⟨before, hfinished⟩ := List.getLast?_eq_some_iff.mp hnewest
      have hcontent := h.told.kept.content
      rw [h.told.consumed, hfinished, History.partSent, h.told.queue, hc] at hcontent
      refine ⟨by simp [OutputQueue.empty, hc], before.flatMap Buffer.bytes, ?_⟩
      rw [hcontent]
      simp

/-- Whatever was published by the time of the last broadcast has reached every subscriber:
the newest frame it was given is not older, and waits at the end of the queue or has been
sent whole. A queue emptied over the budget belongs to a session that has left, and its
emptying is the end of its log. -/
theorem newest_reaches_subscribers
    (hr : Run (Step config) (init httpListener streamListener signalFd notificationFd timer) es s) :
    (∀ e ∈ s.reactor.sessions, e.2.streaming = true → 0 < s.reactor.lastSequence →
      ∃ b n, (enqueuedOf e.2.log).getLast? = some b ∧ b.sequence = some n ∧
        s.reactor.lastSequence ≤ n ∧
        (e.2.output.items.getLast? = some b ∨
          (e.2.output.empty = true ∧ b.bytes <:+ sentOf e.2.log))) ∧
    (∀ e ∈ s.reactor.sessions, ∀ h ∈ e.2.log, h.2 ≠ .refused) ∧
    (∀ e ∈ s.reactor.closed, e.1 ∉ s.reactor.sessions.keys ∧
      ∀ h ∈ e.2.log.dropLast, h.2 ≠ .refused) ∧
    (∀ e ∈ s.reactor.sessions ++ s.reactor.closed,
      sentOn s.reactor.wire e.1 = sentOf e.2.log) := by
  have h := feeding_run hr
  refine ⟨fun e he hs hpos => ?_, fun e he => (h.chronicle.live e he).told.unrefused,
    fun e he => ⟨h.chronicle.apart e.1 (List.mem_map_of_mem (f := Prod.fst) he),
      (h.chronicle.past e he).refusedLast⟩, h.chronicle.wire⟩
  have hfed := h.fed e he hs
  have hnew : 0 < newest e.2 := Nat.lt_of_lt_of_le hpos hfed
  cases hb : (enqueuedOf e.2.log).getLast? with
  | none =>
      rw [newest, hb] at hnew
      exact absurd hnew (Nat.lt_irrefl 0)
  | some b =>
      cases hn : b.sequence with
      | none =>
          rw [newest, hb, Option.bind_some, hn] at hnew
          exact absurd hnew (Nat.lt_irrefl 0)
      | some n =>
          rw [newest, hb, Option.bind_some, hn] at hfed
          exact ⟨b, n, rfl, hn, hfed, newest_waits (h.chronicle.live e he) hb⟩

/-- A subscriber joins after generation 1 was published, and its notification arrives after
generation 2 was. -/
def collapsed : List Event :=
  [.publish twoBytes, .accept true (.descriptor 9), .notify, sendEvent 1, .publish twoBytes,
    .notification]

theorem newest_reaches_subscribers_collapsed : ∃ s,
    follow (step {}) (init 3 4 5 6 7) collapsed = some s ∧ s.reactor.lastSequence = 2 ∧
    ∀ e ∈ s.reactor.sessions, e.2.streaming = true → 0 < s.reactor.lastSequence →
      ∃ b n, (enqueuedOf e.2.log).getLast? = some b ∧ b.sequence = some n ∧
        s.reactor.lastSequence ≤ n ∧
        (e.2.output.items.getLast? = some b ∨
          (e.2.output.empty = true ∧ b.bytes <:+ sentOf e.2.log)) := by
  have hf : follow (step {}) (init 3 4 5 6 7) collapsed =
      some ((follow (step {}) (init 3 4 5 6 7) collapsed).getD (init 3 4 5 6 7)) := rfl
  exact ⟨_, hf, rfl, (newest_reaches_subscribers (run_of_follow hf)).1⟩

/-! ## One response for an HTTP session -/

/-- Unsent bytes of the response, for a session that is answering. -/
theorem responding_iff {clock : Nat} {x : Session} (h : x.Live clock) (hs : x.streaming = false) :
    (x.responding = true ↔ x.output.empty = false) ∧
      ∀ b ∈ enqueuedOf x.log, sentOf x.log ≠ b.bytes := by
  have ha := h.answering hs
  cases hr : x.responding with
  | false =>
      have hnone := ha.waiting hr
      have hempty := (h.told.silent hnone).2
      exact ⟨by simp [hempty], by simp [hnone]⟩
  | true =>
      obtain ⟨b, hone, -⟩ := ha.answered hr
      have hne := h.unsent hr
      refine ⟨by simp [hne], fun b' hb' hall => ?_⟩
      rw [hone] at hb'
      obtain rfl := List.mem_singleton.mp hb'
      have hempty := (h.told.single hone).2.mpr hall
      exact absurd (hne.symm.trans hempty) (by simp)

/-- An HTTP session is given at most one response and no frame; what was sent to it is a
prefix of that response, and it is read only before. While it is in the table it has bytes
of its response left exactly when it is responding, and never none. -/
theorem one_response
    (hr : Run (Step config) (init httpListener streamListener signalFd notificationFd timer) es s) :
    (∀ e ∈ s.reactor.sessions ++ s.reactor.closed, e.2.streaming = false →
      OneResponse e.2.log ∧ sentOn s.reactor.wire e.1 = sentOf e.2.log) ∧
    (∀ e ∈ s.reactor.sessions, e.2.streaming = false →
      (e.2.responding = true ↔ e.2.output.empty = false) ∧
      (e.2.responding = true ↔ ∃ b ∈ enqueuedOf e.2.log, sentOf e.2.log ≠ b.bytes) ∧
      ∀ b ∈ enqueuedOf e.2.log, sentOf e.2.log ≠ b.bytes) := by
  have h := chronicle_run hr
  constructor
  · intro e he hs
    refine ⟨?_, h.wire e he⟩
    rcases List.mem_append.mp he with he | he
    · exact (h.live e he).past.response hs
    · exact (h.past e he).response hs
  · intro e he hs
    have hlive := h.live e he
    obtain ⟨hempty, hunsent⟩ := responding_iff hlive hs
    refine ⟨hempty, ⟨fun hresponding => ?_, ?_⟩, hunsent⟩
    · obtain ⟨b, hone, -⟩ := (hlive.answering hs).answered hresponding
      have hb : b ∈ enqueuedOf e.2.log := hone ▸ List.mem_singleton_self b
      exact ⟨b, hb, hunsent b hb⟩
    · rintro ⟨b, hb, -⟩
      cases hresponding : e.2.responding with
      | true => rfl
      | false =>
          rw [(hlive.answering hs).waiting hresponding] at hb
          cases hb

/-- A request in two pieces, and the first byte of a response of two. -/
def halfAnswered : List Event :=
  [.accept false (.descriptor 9),
    .session 16 { input := true, output := true } [.data [13, 10], .data [13, 10]] [.accepted 1 0]
      twoBytes fun _ => twoBytes]

theorem one_response_halfAnswered : ∃ s,
    follow (step {}) (init 3 4 5 6 7) halfAnswered = some s ∧
    sentOn s.reactor.wire 16 = [1] ∧
    ∀ e ∈ s.reactor.sessions, e.2.streaming = false →
      (e.2.responding = true ↔ e.2.output.empty = false) ∧
      (e.2.responding = true ↔ ∃ b ∈ enqueuedOf e.2.log, sentOf e.2.log ≠ b.bytes) ∧
      ∀ b ∈ enqueuedOf e.2.log, sentOf e.2.log ≠ b.bytes := by
  have hf : follow (step {}) (init 3 4 5 6 7) halfAnswered =
      some ((follow (step {}) (init 3 4 5 6 7) halfAnswered).getD (init 3 4 5 6 7)) := rfl
  exact ⟨_, hf, rfl, (one_response (run_of_follow hf)).2⟩

/-! ## Deadlines -/

/-- What the deadlines say of a log: no send, and no filling of an empty queue, for longer
than `write_timeout`; or no response for longer than `request_timeout` after the accept. -/
def Overdue (config : ReactorConfig) (clock : Nat) (x : Session) : Prop :=
  (x.output.empty = false ∧
      clock - max (filledAt x.log) (lastSent x.log) > config.writeTimeout * 1000000) ∨
    (x.streaming = false ∧ x.responding = false ∧
      clock - acceptTime x.log > config.requestTimeout * 1000000)

theorem expired_iff (config : ReactorConfig) {clock : Nat} {x : Session} (h : x.Live clock) :
    Reactor.expired config clock x = true ↔ Overdue config clock x := by
  have haccept : acceptTime x.log = x.acceptedAt := by
    rw [acceptTime, h.told.accepted]
    rfl
  rw [Reactor.expired, Overdue, haccept]
  cases he : x.output.empty with
  | true => simp [and_assoc]
  | false =>
      rw [← h.told.progress he]
      simp [and_assoc, or_comm]

/-- Sweep looks at each session once, with one reading of the clock. -/
theorem get_sweepOne (config : ReactorConfig) (r : Reactor) (token t : Nat) :
    (Reactor.sweepOne config r token).sessions.get t =
        (if t = token then (r.sessions.get t).filter fun x => !Reactor.expired config r.clock x
        else r.sessions.get t) ∧
      (Reactor.sweepOne config r token).clock = r.clock := by
  unfold Reactor.sweepOne
  cases hg : r.sessions.get token with
  | none =>
      refine ⟨?_, rfl⟩
      by_cases ht : t = token
      · rw [if_pos ht, ht, hg]
        rfl
      · rw [if_neg ht]
  | some x =>
      simp only
      cases hx : Reactor.expired config r.clock x with
      | true =>
          simp only [↓reduceIte, Reactor.close, hg, Reactor.unregister, Table.get_erase]
          refine ⟨?_, rfl⟩
          by_cases ht : t = token
          · rw [if_pos ht, if_pos ht, ht, hg, Option.filter_some, hx]
            rfl
          · rw [if_neg ht, if_neg ht]
      | false =>
          simp only [Bool.false_eq_true, ↓reduceIte]
          refine ⟨?_, trivial⟩
          by_cases ht : t = token
          · rw [if_pos ht, ht, hg, Option.filter_some, hx]
            rfl
          · rw [if_neg ht]

theorem get_sweep_fold (config : ReactorConfig) (tokens : List Nat) (r : Reactor) (t : Nat) :
    (tokens.foldl (Reactor.sweepOne config) r).sessions.get t =
      if t ∈ tokens then (r.sessions.get t).filter fun x => !Reactor.expired config r.clock x
      else r.sessions.get t := by
  induction tokens generalizing r with
  | nil => simp
  | cons token tokens ih =>
      obtain ⟨hget, hclock⟩ := get_sweepOne config r token t
      rw [List.foldl_cons, ih, hget, hclock]
      by_cases ht : t = token
      · simp [ht]
      · simp [ht]

theorem get_sweep (config : ReactorConfig) (r : Reactor) (t : Nat) :
    (r.sweep config).sessions.get t =
      (r.sessions.get t).filter fun x => !Reactor.expired config r.clock x := by
  have hfold := get_sweep_fold config r.sessions.keys r t
  have hsweep : (r.sweep config).sessions =
      (r.sessions.keys.foldl (Reactor.sweepOne config) r).sessions := by
    unfold Reactor.sweep
    simp only
    split <;> rfl
  rw [hsweep, hfold]
  by_cases ht : t ∈ r.sessions.keys
  · rw [if_pos ht]
  · rw [if_neg ht]
    cases hg : r.sessions.get t with
    | none => rfl
    | some x => exact absurd (Table.mem_keys_of_get hg) ht

/-- `last_progress` is the later of the last filling of the queue and the last send, and
Sweep closes exactly the overdue sessions and leaves the others as they are. -/
theorem sweep_closes_overdue
    (hr : Run (Step config) (init httpListener streamListener signalFd notificationFd timer) es s) :
    (∀ e ∈ s.reactor.sessions, e.2.output.empty = false →
      e.2.lastProgress = max (filledAt e.2.log) (lastSent e.2.log)) ∧
    (∀ token x, s.reactor.sessions.get token = some x →
      (Overdue config s.reactor.clock x → (s.reactor.sweep config).sessions.get token = none) ∧
      (¬ Overdue config s.reactor.clock x →
        (s.reactor.sweep config).sessions.get token = some x)) := by
  have h := chronicle_run hr
  refine ⟨fun e he hne => (h.live e he).told.progress hne, fun token x hg => ?_⟩
  have hiff := expired_iff config (h.live _ (Table.mem_of_get hg))
  constructor
  · intro hover
    rw [get_sweep, hg, Option.filter_some, hiff.mpr hover]
    rfl
  · intro hover
    have hfalse : Reactor.expired config s.reactor.clock x = false := by
      rw [← Bool.not_eq_true]
      exact fun hx => hover (hiff.mp hx)
    rw [get_sweep, hg, Option.filter_some, hfalse]
    rfl

/-- A subscriber that never reads is given a newer generation at the last moment. -/
def stalled : List Event :=
  [.publish twoBytes, .accept true (.descriptor 9), .notify, .elapse 5000000000,
    .publish twoBytes, .notification, .elapse 1]

theorem sweep_closes_overdue_stalled : ∃ s,
    follow (step {}) (init 3 4 5 6 7) stalled = some s ∧
    (s.reactor.sweep {}).sessions.get 16 = none := by
  have hf : follow (step {}) (init 3 4 5 6 7) stalled =
      some ((follow (step {}) (init 3 4 5 6 7) stalled).getD (init 3 4 5 6 7)) := rfl
  refine ⟨_, hf, ((sweep_closes_overdue (run_of_follow hf)).2 16 _ rfl).1 (.inl ⟨rfl, ?_⟩)⟩
  decide

end System
end WebHtop.Server
