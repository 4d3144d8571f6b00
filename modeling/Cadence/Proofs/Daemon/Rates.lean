import Cadence.Daemon
import Cadence.Proofs.Frequency
import Cadence.Proofs.RunLoop.Frame

/-!
# The rates that the daemon accepts

The daemon accepts every rate that is finite and above zero, and registers the sampler at the rate and
the reader at a quarter of it.  The quarter of each of the two least doubles is rounded to zero, at which
nothing can be registered; all other rates are scheduled (`accepted_rates`).
-/

namespace Cadence

open Number Number.Format

/-! ## 1. A quarter of a rate -/

namespace Session

theorem readerRate_double {b : ℕ} (hpos : 0 < b) (hfinite : b < binary64.infinityBits) :
    ∃ c, binary64.NearestTo (binary64.value b / 4) c ∧ c ≤ b ∧ readerRate (double b) = double c := by
  obtain ⟨a, hposA, hfinA, hfour, -, -, hexact⟩ := exists_significand (n := 4) (by decide) (by decide)
  have hliteral : ofNat64 4 = 4.0 := by decide
  have hvalue := hexact (by norm_num)
  obtain ⟨c, hnear, hquotient⟩ := div_double hpos hfinite hposA hfinA
  rw [← hfour, hliteral] at hquotient
  rw [hvalue, Nat.cast_ofNat] at hnear
  have hnonneg := value_nonneg binary64 b
  have hless : c ≤ b := hnear.mono (nearestTo_value _ b) (by linarith)
  refine ⟨c, hnear, hless, ?_⟩
  rw [readerRate, hquotient, min_eq_left (hless.trans hfinite.le)]

/-- Up to half of the least double is rounded to zero, and a quarter of twice the least one is that.
-/
theorem quarter_eq_zero_iff {b c : ℕ} (hnear : binary64.NearestTo (binary64.value b / 4) c) :
    c = 0 ↔ b ≤ 2 := by
  have hmono := (value_strictMono binary64).monotone
  -- The least doubles are multiples of one unit.
  have hone : binary64.value 1 = binary64.value 0 + 2 ^ binary64.place 0 := value_succ _ 0
  have htwo : binary64.value 2 = binary64.value 1 + 2 ^ binary64.place 1 := value_succ _ 1
  have hthree : binary64.value 3 = binary64.value 2 + 2 ^ binary64.place 2 := value_succ _ 2
  have hunit : (0 : ℚ) < 2 ^ binary64.place 0 := by positivity
  have hfirst : binary64.place 1 = binary64.place 0 := by decide
  have hsecond : binary64.place 2 = binary64.place 0 := by decide
  rw [value_zero, zero_add] at hone
  rw [hone, hfirst] at htwo
  rw [htwo, hsecond] at hthree
  constructor
  · rintro rfl
    by_contra hmore
    have hlarge := hmono (Nat.lt_of_not_le hmore)
    have hupper := hnear.upper
    rw [value_zero, Nat.zero_add, hone] at hupper
    rw [hthree] at hlarge
    linarith
  · intro hfew
    by_contra hsome
    have hsmall := hmono hfew
    have hleast := hmono (Nat.one_le_iff_ne_zero.2 hsome)
    have hbelow := value_nonneg binary64 (c - 1)
    have hlower := hnear.lower
    rw [hone] at hleast
    rw [htwo] at hsmall
    rcases Nat.lt_or_ge c 2 with hsame | habove
    · -- An exact half goes to zero, which is even.
      have hodd : c = 1 := by omega
      have hstrict := (hnear.strict (by omega)).2
      linarith
    · have hnext := hmono habove
      linarith

/-- The quarter of a rate is one if the rate is not one of the two least doubles. -/
theorem isValid_readerRate {b : ℕ} (hpos : 0 < b) (hfinite : b < binary64.infinityBits) :
    Frequency.isValid (readerRate (double b)) = true ↔ 2 < b := by
  obtain ⟨c, hnear, hless, hquarter⟩ := readerRate_double hpos hfinite
  rw [hquarter, ← Nat.not_le, ← quarter_eq_zero_iff hnear]
  constructor
  · rintro hvalid rfl
    exact absurd hvalid (by decide)
  · intro hsome
    exact Frequency.isValid_double (Nat.pos_of_ne_zero hsome) (hless.trans_lt hfinite)

/-- With everything else in order, it depends on the rate what becomes of the daemon. -/
theorem prepare_of_valid {arguments : List String} {environment : Option String} {read : FileReader}
    {a : Arguments} {c : Config} (hread : CommandLine.read arguments = .ok a)
    (hload : loadConfig read environment a = .ok c) (hvalid : c.validate = .ok ())
    (hfits : fits c = true) (hrate : Frequency.isValid a.rate = true) :
    prepare arguments environment read =
      if Frequency.isValid (readerRate a.rate) then .ok ⟨c, a⟩ else .error .breakdown := by
  have hstart : prepare arguments environment read =
      (if !Frequency.isValid a.rate then
        .error (.failed ⟨"--rate must be a positive number, got " ++ plain64 a.rate, none⟩)
      else if !fits c then .error .breakdown
      else if !Frequency.isValid (readerRate a.rate) then .error .breakdown
      else .ok ⟨c, a⟩) := by
    rw [prepare, hread]
    show (loadConfig read environment a >>= _) = _
    rw [hload]
    show ((c.validate.mapError _) >>= _) = _
    rw [hvalid]
    rfl
  rw [hstart, hrate, hfits]
  cases Frequency.isValid (readerRate a.rate) with
  | true => rfl
  | false => rfl

end Session

/-! ## 2. The callbacks of a session -/

namespace Engine

open RunLoop

variable {e : Engine} {ms : List (Ticket × Entry Station)} {hertz : Float}

theorem register_of_valid (e : Engine) (hvalid : Frequency.isValid hertz = true) (random : Nat)
    (station : Station) :
    let entry := RunLoop.entry hertz (random % Frequency.period hertz) station
    e.register hertz random station =
      { e with
        loop := (e.loop.enroll entry).2.flagRescan.rouse
        handles := e.handles ++ [(e.loop.enroll entry).1] } := by
  intro entry
  have hsubmit : e.loop.register hertz random station =
      (.ok (e.loop.enroll entry).1, (e.loop.enroll entry).2.flagRescan.rouse) := by
    rw [RunLoop.register, submit, if_pos hvalid]
  rw [register, hsubmit]

/-- A callback that is registered comes behind all others. -/
theorem holds_register (h : e.loop.roster.Holds ms) (hvalid : Frequency.isValid hertz = true)
    (random : Nat) (station : Station) :
    ∃ t, (e.register hertz random station).loop.roster.Holds
        (ms ++ [(t, RunLoop.entry hertz (random % Frequency.period hertz) station)]) ∧
      (e.register hertz random station).handles = e.handles ++ [⟨e.loop.id, t⟩] := by
  have hregister := e.register_of_valid hvalid random station
  rw [hregister]
  refine ⟨_, ?_, rfl⟩
  show (RunLoop.rouse _).roster.Holds _
  rw [roster_rouse]
  exact (Roster.holds_insert h _).2

/-- An open session has both callbacks on its loop. -/
theorem start_of_valid (s : Session) (hrate : Frequency.isValid s.arguments.rate = true)
    (hquarter : Frequency.isValid (Session.readerRate s.arguments.rate) = true) (now : Timestamp)
    (random : Nat × Nat) :
    (start s now random).handles.length = 2 ∧
      (start s now random).loop.roster.toList.map (fun entry => (entry.callback, entry.period)) =
        [(.sampler, Frequency.period s.arguments.rate),
          (.reader, Frequency.period (Session.readerRate s.arguments.rate))] := by
  -- The loop and the scene get names, or their definitions would be unfolded at every step.
  obtain ⟨l, hcreated⟩ : ∃ l : RunLoop Station,
      l = create 1 ((LoopOptions.named s.config.runLoop.name).configured s.config) now := ⟨_, rfl⟩
  have hempty : l.comeUp.roster.Holds [] := by
    rw [(keeps_comeUp (by rw [hcreated]; rfl)).roster, hcreated]
    exact Roster.holds_empty _
  obtain ⟨scene, hscene⟩ : ∃ scene, scene = PipelineScene.mk (Pipeline.withSlots
      s.config.messaging.queueSlots s.config.messaging.busSlots) now [] := ⟨_, rfl⟩
  have hstart : start s now random =
      ((Engine.mk l.comeUp scene []).register s.arguments.rate random.1 .sampler).register
        (Session.readerRate s.arguments.rate) random.2 .reader := by
    rw [hcreated, hscene]
    rfl
  -- Each registration puts one entry behind those before.
  obtain ⟨t, hsampler, hfirst⟩ :=
    holds_register (e := ⟨l.comeUp, scene, []⟩) hempty hrate random.1 .sampler
  obtain ⟨u, hreader, hsecond⟩ := holds_register hsampler hquarter random.2 .reader
  rw [hstart, hsecond, hfirst, hreader.toList_eq]
  exact ⟨rfl, rfl⟩

end Engine

/-! ## 3. Every rate -/

/-- The sampler can be registered at every rate that is accepted, and the reader at its quarter unless
the rate is one of the two least doubles; both periods fit in a signed word.  Then the daemon opens a
session with both callbacks.  At the two least rates it breaks down. -/
theorem accepted_rates {x : Float} (haccepted : x.isFinite = true ∧ 0.0 < x) :
    -- The sampler.
    Frequency.isValid x = true ∧ 1 ≤ Frequency.period x ∧ Frequency.period x ≤ maxSigned ∧
      (∃ v, 0 < v ∧ StandsFor x v ∧ Frequency.IsPeriod v (Frequency.period x)) ∧
    -- The reader.
    (Frequency.isValid (Session.readerRate x) = true ↔ 2 < x.toBits.toNat) ∧
      1 ≤ Frequency.period (Session.readerRate x) ∧
      Frequency.period (Session.readerRate x) ≤ maxSigned ∧
      (2 < x.toBits.toNat → ∃ v, 0 < v ∧ StandsFor (Session.readerRate x) v ∧
        Frequency.IsPeriod v (Frequency.period (Session.readerRate x))) ∧
    -- What becomes of the daemon.
    (∀ arguments environment read a c, CommandLine.read arguments = .ok a → a.rate = x →
      Session.loadConfig read environment a = .ok c → c.validate = .ok () → Session.fits c = true →
      Session.prepare arguments environment read =
        if 2 < x.toBits.toNat then .ok ⟨c, a⟩ else .error .breakdown) ∧
    ∀ s : Session, s.arguments.rate = x → 2 < x.toBits.toNat → ∀ now random,
      (Engine.start s now random).handles.length = 2 ∧
        (Engine.start s now random).loop.roster.toList.map
            (fun entry => (entry.callback, entry.period)) =
          [(.sampler, Frequency.period x), (.reader, Frequency.period (Session.readerRate x))] := by
  have hvalid := (Frequency.isValid_iff x).2 haccepted
  have hquarter : Frequency.isValid (Session.readerRate x) = true ↔ 2 < x.toBits.toNat := by
    obtain ⟨b, hpos, hfinite, rfl⟩ := (finite_and_pos_iff x).1 haccepted
    rw [toNat_toBits_double hfinite, Session.isValid_readerRate hpos hfinite]
  refine ⟨hvalid, Frequency.period_pos x, Frequency.period_le x, Frequency.isPeriod_period hvalid,
    hquarter, Frequency.period_pos _, Frequency.period_le _,
    fun hmore => Frequency.isPeriod_period (hquarter.2 hmore), ?_, ?_⟩
  · rintro arguments environment read a c hread rfl hload hconfig hfits
    rw [Session.prepare_of_valid hread hload hconfig hfits hvalid]
    exact if_congr hquarter rfl rfl
  · rintro s rfl hmore now random
    exact Engine.start_of_valid s hvalid (hquarter.2 hmore) now random

/-- The third least double is the least rate that is scheduled. -/
theorem accepted_rates_of_third :
    let x := Float.ofBits 3
    (x.isFinite = true ∧ 0.0 < x) ∧ Frequency.isValid (Session.readerRate x) = true ∧
      Frequency.period (Session.readerRate x) ≤ maxSigned := by
  obtain ⟨-, -, -, -, hquarter, -, hle, -⟩ :=
    @accepted_rates (Float.ofBits 3) ⟨by decide, by decide⟩
  exact ⟨⟨by decide, by decide⟩, hquarter.2 (by decide), hle⟩

/-- At the least rate that there is the daemon breaks down. -/
theorem least_rate_breaks_down :
    let x := Float.ofBits 1
    (x.isFinite = true ∧ 0.0 < x) ∧ Frequency.isValid (Session.readerRate x) = false ∧
      (Number.ofText? "5e-324").map Float.toBits = some 1 ∧
      (Session.prepare ["--rate=5e-324", "-d", "0s"] none (fun _ => .error .notFound)
        matches .error .breakdown) := by
  decide +kernel

end Cadence
