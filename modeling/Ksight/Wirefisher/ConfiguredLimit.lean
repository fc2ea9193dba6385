/-
  Ksight.Wirefisher.ConfiguredLimit — from the configuration's two texts to the packets that
  are let through (src/net/wirefisher/src/ip_pro_port_module.cpp: `load_netfilter_module`,
  `get_rule`; include/parse.h: `parse_rate_bps`, `parse_time_scale`; bpf/tc_port.bpf.h:
  `netfilter_handle`; include/common.h: `rate_limit_check`).

  A section that says `rate` over `time` asks for a limit of `rate` bytes a second with bursts
  of up to a quarter of `rate` times `time`. `Loaded` is that the port module has been loaded
  with such a section; the packets then go through its program one after another.

  Where nothing is lost in the texts (`Kept`) and the buckets map has room, both directions
  hold. `limit_kept`: what is accepted of a bucket key in a window of time is at most the burst
  and the rate times the window, and packets the rule is not about are all accepted.
  `nothing_dropped_iff`: no packet at all is dropped if and only if no run of consecutive
  packets of one key is longer than the burst and what the gaps between them refill. A gap
  refills whole bytes only, and its product with the rate wraps at 64 bits.
-/

import Ksight.Wirefisher.Refill
import Ksight.Wirefisher.Rules
import Ksight.Wirefisher.Uncharged

namespace Ksight.Wirefisher.ConfiguredLimit

open Ksight.Lib Ksight.Wirefisher.Port

/-! ## The limit that is asked for -/

/-- The bytes a key may send at once. -/
def burst (rate : RateText) (time : TimeText) : Nat := ⌊(rate.rate : ℚ) * time.seconds / 4⌋₊

/-- What a gap is worth at `rate` bytes a second. -/
def refill (rate : Nat) (ts now : UInt64) : Nat := (now - ts).toNat * rate % 2 ^ 64 / 1000000000

/-- What the gaps between the packets of a run are worth. -/
def refills (rate : Nat) : Packet → List Packet → Nat
  | _, [] => 0
  | p, q :: run => refill rate p.now q.now + refills rate q run

def bytes (ps : List Packet) : Nat := (ps.map fun p => p.len.toNat).sum

/-! ## The configuration -/

variable {N : Type}

/-- The text of a field. -/
def textAt (y : Yaml N) (node : N) (key : String) : Except ParseError (List Char) := do
  y.asString (← y.subscript node key)

/-- The port module has been loaded, with a rule whose limit is written as `rate` and `time`. -/
structure Loaded (y : Yaml N) (moduleNode : N) (rate : RateText) (time : TimeText)
    (rules : Modules.Port.RuleMap) (rule : IpProPortRule) : Prop where
  texts : ∀ node ∈ Modules.sectionOf y "ip_pro_port_rule" moduleNode,
    textAt y node "rate_bps" = .ok rate.text ∧ textAt y node "time_scale" = .ok time.text
  parsed : Modules.configured y "ip_pro_port_rule" (Modules.Port.fields y) moduleNode = some rule
  loaded : ∃ r, Modules.Port.load y r moduleNode .empty = .ok (0, rules)

variable {y : Yaml N} {moduleNode : N} {rate : RateText} {time : TimeText}
  {rules : Modules.Port.RuleMap} {rule : IpProPortRule}

/-- A load that succeeds has left the rule in the map. -/
theorem Loaded.lookup (h : Loaded y moduleNode rate time rules rule) : rules.lookup 0 = some rule := by
  obtain ⟨r, hload⟩ := h.loaded
  have hsome := Option.isSome_iff_exists.mpr ⟨rule, h.parsed⟩
  obtain ⟨rule', hrule', hlook⟩ := (Modules.enforced_loadWith (by decide)).mpr (.inl hsome) rules hload
  rw [h.parsed] at hrule'
  cases hrule'
  exact hlook

theorem bind_eq_ok {ε α β : Type} {x : Except ε α} {f : α → Except ε β} {b : β} :
    x >>= f = .ok b ↔ ∃ a, x = .ok a ∧ f a = .ok b := by
  cases x <;> simp [bind, Except.bind]

/-- The fields of the rule that are its limit. -/
theorem fields_limit {node : N} (h : Modules.Port.fields y node = .ok rule) :
    parsed y parseRateBps node "rate_bps" = .ok rule.rateBps ∧
      parsed y parseTimeScale node "time_scale" = .ok rule.timeScale := by
  simp only [Modules.Port.fields, bind_eq_ok] at h
  obtain ⟨_, -, _, -, _, -, _, -, _, hrate, _, htime, _, -, _, -, _, -, _, -, _, -, _, -, _, -, hrule⟩ := h
  cases hrule
  exact ⟨hrate, htime⟩

theorem parsed_text {α : Type} {parse : List Char → Except ParseError α} {node : N} {key : String}
    {text : List Char} (h : textAt y node key = .ok text) : parsed y parse node key = parse text := by
  unfold textAt at h
  unfold parsed
  rcases hs : y.subscript node key with e | n
  · rw [hs] at h
    cases h
  · rw [hs] at h
    have ht : y.asString n = .ok text := h
    simp [bind, Except.bind, ht]

theorem timeScaleOf_lt (unit : TimeUnit) (value : Nat) : timeScaleOf unit value < 2 ^ 32 := by
  cases unit <;> simp only [timeScaleOf] <;> omega

theorem parseRateBps_ok {r : UInt64} (h : parseRateBps rate.text = .ok r) :
    rate.digits.value < 2 ^ 64 ∧ .ofNat rate.rate = r := by
  rw [parseRateBps_text] at h
  split at h
  · exact ⟨‹_›, Except.ok.inj h⟩
  · cases h

theorem parseTimeScale_ok {t : UInt32} (h : parseTimeScale time.text = .ok t) :
    time.digits.value < 2 ^ 64 ∧ .ofNat (timeScaleOf time.unit time.digits.value) = t := by
  rw [parseTimeScale_text] at h
  split at h
  · exact ⟨‹_›, Except.ok.inj h⟩
  · cases h

/-- The limit of the rule is the one the texts ask for. -/
theorem Loaded.limit (h : Loaded y moduleNode rate time rules rule) (hk : Kept rate time) :
    rule.rateBps.toUInt32.toNat = rate.rate ∧ capacityOf rule = burst rate time := by
  obtain ⟨node, hnode, hfields⟩ := Option.bind_eq_some_iff.mp h.parsed
  obtain ⟨hrateText, htimeText⟩ := h.texts node hnode
  have hok : Modules.Port.fields y node = .ok rule := by
    rcases hf : Modules.Port.fields y node with e | rule'
    · rw [hf] at hfields
      cases hfields
    · rw [hf] at hfields
      cases hfields
      rfl
  obtain ⟨hrate, htime⟩ := fields_limit hok
  rw [parsed_text hrateText] at hrate
  rw [parsed_text htimeText] at htime
  obtain ⟨hrate64, hrate⟩ := parseRateBps_ok hrate
  obtain ⟨htime64, htime⟩ := parseTimeScale_ok htime
  obtain ⟨hlt, hunit⟩ := (hk.resolve_left (not_le.mpr hrate64)).resolve_left (not_le.mpr htime64)
  have hr : rule.rateBps.toUInt32.toNat = rate.rate := by
    rw [← hrate, UInt64.toNat_toUInt32, UInt64.toNat_ofNat', Nat.mod_mod_of_dvd _ (by decide), Nat.mod_eq_of_lt hlt]
  have ht : rule.timeScale.toNat = timeScaleOf time.unit time.digits.value := by
    rw [← htime]
    exact UInt32.toNat_ofNat_of_lt' (timeScaleOf_lt _ _)
  refine ⟨hr, ?_⟩
  have hcap := (computed_eq_denoted hlt time.unit time.digits.value).mpr hunit
  rw [burst, floor_denoted, ← hcap, capacityOf, capacity, computed, hr, ht, Nat.mod_eq_of_lt hlt]

/-! ## A configuration -/

/-- 112 bytes a second of what comes in for an address, a bucket of 28 bytes. -/
def slowModule : Modules.Doc :=
  .map [("ip_pro_port_rule", .map [("target_ip", .scalar "192.168.91.129"), ("target_port", .scalar "9090"),
    ("target_protocol", .scalar "TCP"), ("rate_bps", .scalar "112"), ("time_scale", .scalar "1s"),
    ("gress", .scalar "ingress"), ("ip_enable", .scalar "enable"), ("port_enable", .scalar "disable"),
    ("protocol_enable", .scalar "disable")])]

def slowRule : IpProPortRule where
  targetIp := 0xc0a85b81
  targetPort := 9090
  targetProtocol := ipprotoTcp
  rateBps := 112
  timeScale := 1
  gress := 0
  ipEnable := 1
  portEnable := 0
  protocolEnable := 0

def slowRate : RateText := ⟨⟨[1, 1, 2], by decide⟩, .none⟩

def oneSecond : TimeText := ⟨⟨[1], by decide⟩, .s⟩

theorem slow_loaded : Loaded Modules.docs slowModule slowRate oneSecond (oneRule slowRule) slowRule := by
  refine ⟨fun node hnode => ?_, rfl, ⟨fun _ => true, true, true⟩, rfl⟩
  have hnode : some _ = some node := hnode
  cases hnode
  exact ⟨rfl, rfl⟩

theorem slow_kept : Kept slowRate oneSecond :=
  .inr (.inr ⟨by decide, show slowRate.rate * oneSecond.digits.value < 2 ^ 32 by decide⟩)

theorem slow_burst : burst slowRate oneSecond = 28 := by
  rw [burst, floor_denoted]
  rfl

def slowFlow : Flow := ⟨0xc0a85b81, 80, ipprotoUdp⟩

/-- Two packets of 28 bytes at once. -/
def twoAtOnce : List Arrival := [arrival slowRule slowFlow 28 7, arrival slowRule slowFlow 28 7]

theorem room_twoAtOnce : RoomFor slowRule emptyMaps twoAtOnce := by
  unfold RoomFor
  decide +kernel

/-! ## What is let through -/

/-- A key meets the full map only if some packet of the sequence does. -/
theorem neverFull_of_forall {k : UInt64} {ps : List Arrival} {m : Maps}
    (h : ∀ pre p post, ps = pre ++ p :: post → ¬ MeetsFull rule p (mapsAfter rules pre m)) :
    NeverFull rules rule k ps m := by
  induction ps generalizing m with
  | nil => trivial
  | cons p ps ih => exact ⟨fun _ => h [] p ps rfl, ih fun pre q post e => h (p :: pre) q post (by rw [e]; rfl)⟩

theorem neverFull_of_room (hr : rules.lookup 0 = some rule) {m : Maps} {pre win post : List Arrival}
    (hroom : RoomFor rule m (pre ++ win ++ post)) (k : UInt64) :
    NeverFull rules rule k win (mapsAfter rules pre m) := by
  refine neverFull_of_forall fun pre' p post' e hfull => ?_
  refine absurd ((full_iff hr (pre ++ win ++ post) m).mp ⟨pre ++ pre', p, post' ++ post, ?_, ?_⟩) (not_lt.mpr hroom)
  · simp [e]
  · rwa [mapsAfter_append]

/-- Packets of other rules are accepted, and those of a key keep to the limit that is asked for, in
    every window of time. -/
theorem limit_kept (h : Loaded y moduleNode rate time rules rule) (hk : Kept rate time) {m : Maps}
    {ps : List Arrival} (hroom : RoomFor rule m ps) :
    (∀ pre p post, ps = pre ++ p :: post → ruleMatch rule p.ctx = none →
        verdictAfter rules m pre p = .accept) ∧
      ∀ k pre win post, ps = pre ++ win ++ post → ClockedAt win →
        ∀ t0 t1, (∀ p ∈ win, t0 ≤ p.readings.checkNow ∧ p.readings.checkNow ≤ t1) →
          acceptedOf rules rule k win (mapsAfter rules pre m) ≤
            burst rate time + rate.rate * (t1.toNat - t0.toNat) / 1000000000 := by
  obtain ⟨hrate, hcap⟩ := h.limit hk
  constructor
  · intro pre p post _ hnone
    exact (verdict_of_none h.lookup hnone _).1
  · intro k pre win post e hc t0 t1 ht
    subst e
    rw [← hrate, ← hcap]
    exact charged_within h.lookup (neverFull_of_room h.lookup hroom k) hc ht

/-- One of the two packets at most. -/
theorem one_of_two :
    acceptedOf (oneRule slowRule) slowRule (bucketKey slowRule (tupleOf slowFlow)) twoAtOnce emptyMaps ≤ 28 := by
  have h := (limit_kept slow_loaded slow_kept room_twoAtOnce).2 (bucketKey slowRule (tupleOf slowFlow)) []
    twoAtOnce [] rfl (by unfold ClockedAt; decide) 7 7 (by decide)
  rw [slow_burst] at h
  exact h

/-! ## When nothing is dropped -/

theorem asked_calls (r : Rule) (ts : UInt64) (ps : List Packet) :
    TokenBucket.asked (calls r ts ps) = bytes ps := by
  induction ps generalizing ts with
  | nil => rfl
  | cons p ps ih =>
    have := ih p.now
    simp only [TokenBucket.asked, bytes, calls, List.map_cons, List.sum_cons] at this ⊢
    rw [this]

theorem credited_calls (r : Rule) (p : Packet) (run : List Packet) :
    TokenBucket.credited (calls r p.now run) = refills r.rateBps.toNat p run := by
  induction run generalizing p with
  | nil => rfl
  | cons q run ih =>
    have := ih q
    simp only [TokenBucket.credited, refills, calls, List.map_cons, List.sum_cons] at this ⊢
    rw [this]
    rfl

theorem take_calls (r : Rule) (n : Nat) (ts : UInt64) (ps : List Packet) :
    (calls r ts ps).take n = calls r ts (ps.take n) := by
  induction ps generalizing n ts with
  | nil => simp [calls]
  | cons p ps ih =>
    cases n with
    | zero => rfl
    | succ n => rw [calls, List.take_succ_cons, ih, List.take_succ_cons, calls]

/-- No run of the packets is longer than a full bucket and what its gaps are worth. -/
def Fits (capacity rate : Nat) (ps : List Packet) : Prop :=
  ∀ p run, p :: run <:+: ps → bytes (p :: run) ≤ capacity + refills rate p run

theorem within_calls (r : Rule) (c : Nat) (ts : UInt64) (ps : List Packet) :
    TokenBucket.Within c (calls r ts ps) ↔ Fits c r.rateBps.toNat ps := by
  induction ps generalizing ts with
  | nil => simp [calls, TokenBucket.Within, Fits]
  | cons p ps ih =>
    have hhead : (∀ n, p.len.toNat + TokenBucket.asked ((calls r p.now ps).take n) ≤
          c + TokenBucket.credited ((calls r p.now ps).take n)) ↔
        ∀ run, run <+: ps → bytes (p :: run) ≤ c + refills r.rateBps.toNat p run := by
      simp only [take_calls, asked_calls, credited_calls]
      constructor
      · intro h run hrun
        have := h run.length
        rw [← List.prefix_iff_eq_take.mp hrun] at this
        simpa [bytes] using this
      · intro h n
        simpa [bytes] using h _ (List.take_prefix n ps)
    rw [calls, TokenBucket.Within, hhead, ih]
    constructor
    · rintro ⟨hfirst, hrest⟩ q run hrun
      rcases List.infix_cons_iff.mp hrun with hrun | hrun
      · obtain ⟨rfl, hprefix⟩ := List.cons_prefix_cons.mp hrun
        exact hfirst run hprefix
      · exact hrest q run hrun
    · intro h
      exact ⟨fun run hrun => h p run (List.cons_prefix_cons.mpr ⟨rfl, hrun⟩).isInfix,
        fun q run hrun => h q run (List.infix_cons hrun)⟩

/-- A limiter whose buckets are all full at first accepts everything if and only if every run fits. -/
theorem accepted_eq_bytes_iff (r : Rule) (key : UInt64) (ps : List Packet) :
    accepted r key ps (.empty : Buckets) = bytes ps ↔ Fits (capacity r) r.rateBps.toNat ps := by
  rcases ps with _ | ⟨p, ps⟩
  · simp [accepted, bytes, Fits]
  · have hnone : (.empty : Buckets).lookup key = none := BoundedMap.lookup_empty key
    obtain ⟨m', hm', hsame⟩ := Refill.check_created (r := r) hnone (.inr (by decide)) p
    have hcap : (maxBucket r.rateBps r.timeScale).toNat = capacity r := toNat_maxBucket _ _
    have hrun : accepted r key (p :: ps) (.empty : Buckets) = accepted r key (p :: ps) m' := by
      simp only [accepted, hsame]
    rw [hrun, accepted_eq_taken (p :: ps) hm' hcap.le, hcap, ← asked_calls r p.now,
      TokenBucket.taken_eq_asked_iff, within_calls]
    refine ⟨And.right, fun h => ⟨fun n => ?_, h⟩⟩
    -- the first packet finds a bucket that is full without its credit
    rw [take_calls, asked_calls]
    rcases n with _ | n
    · simp [bytes]
    · have := h p (ps.take n) (List.cons_prefix_cons.mpr ⟨rfl, List.take_prefix n ps⟩).isInfix
      rw [← credited_calls] at this
      simp only [List.take_succ_cons, calls, TokenBucket.credited, List.map_cons, List.sum_cons] at this ⊢
      omega

/-- Every place in a sequence is its first or one of the rest. -/
theorem forall_places {α : Type} {P : List α → α → Prop} {p : α} {ps : List α} :
    (∀ pre q post, p :: ps = pre ++ q :: post → P pre q) ↔
      P [] p ∧ ∀ pre q post, ps = pre ++ q :: post → P (p :: pre) q := by
  constructor
  · intro h
    exact ⟨h [] p ps rfl, fun pre q post e => h (p :: pre) q post (by rw [e]; rfl)⟩
  · rintro ⟨hfirst, hrest⟩ pre q post e
    rcases pre with _ | ⟨u, pre⟩
    · cases e
      exact hfirst
    · cases e
      exact hrest pre q post rfl

variable {k : UInt64} {p : Arrival}

theorem packetsOf_own (e : (ruleMatch rule p.ctx).map (bucketKey rule) = some k) (ps : List Arrival) :
    packetsOf rule k (p :: ps) = ⟨p.readings.checkNow, p.ctx.skb.len⟩ :: packetsOf rule k ps :=
  List.filterMap_cons_some (if_pos e)

theorem packetsOf_other (e : (ruleMatch rule p.ctx).map (bucketKey rule) ≠ some k) (ps : List Arrival) :
    packetsOf rule k (p :: ps) = packetsOf rule k ps :=
  List.filterMap_cons_none (if_neg e)

theorem bytes_cons (p : Packet) (ps : List Packet) : bytes (p :: ps) = p.len.toNat + bytes ps := by
  simp [bytes]

theorem acceptedOf_le_bytes (ps : List Arrival) (m : Maps) :
    acceptedOf rules rule k ps m ≤ bytes (packetsOf rule k ps) := by
  induction ps generalizing m with
  | nil => exact Nat.le_refl _
  | cons p ps ih =>
    have hle := ih (netfilterHandle rules p.ctx p.readings m).2.2
    by_cases e : (ruleMatch rule p.ctx).map (bucketKey rule) = some k
    · rw [packetsOf_own e, bytes_cons, SkBuff.toNat_len]
      simp only [acceptedOf]
      split <;> omega
    · simpa [packetsOf_other e, acceptedOf, e] using hle

/-- What is accepted of a key is all there is of it if and only if no packet of the key is dropped. -/
theorem acceptedOf_eq_bytes_iff (ps : List Arrival) (m : Maps) :
    acceptedOf rules rule k ps m = bytes (packetsOf rule k ps) ↔
      ∀ pre p post, ps = pre ++ p :: post → (ruleMatch rule p.ctx).map (bucketKey rule) = some k →
        verdictAfter rules m pre p = .accept := by
  induction ps generalizing m with
  | nil => simp [acceptedOf, packetsOf, bytes]
  | cons p ps ih =>
    have hle : acceptedOf rules rule k ps _ ≤ bytes (packetsOf rule k ps) :=
      acceptedOf_le_bytes ps (netfilterHandle rules p.ctx p.readings m).2.2
    refine Iff.trans ?_ forall_places.symm
    refine Iff.trans ?_ (and_congr_right fun _ => ih (netfilterHandle rules p.ctx p.readings m).2.2)
    by_cases e : (ruleMatch rule p.ctx).map (bucketKey rule) = some k
    · obtain ⟨t, ht, -⟩ := Option.map_eq_some_iff.mp e
      -- a packet of the rule is not empty, so a drop shows in the sum
      have hpos := (parse_spec (ruleMatch_eq_some.mp ht).2.1).1
      rw [packetsOf_own e, bytes_cons, SkBuff.toNat_len]
      simp only [acceptedOf, e, true_and, true_imp_iff, verdictAfter, mapsAfter]
      split
      · rename_i hacc
        simp only [hacc, true_and]
        omega
      · rename_i hdrop
        simp only [hdrop, false_and, iff_false]
        omega
    · simp [packetsOf_other e, acceptedOf, e]

/-- With room for every key and the map empty at first, no packet is dropped if and only if the
    packets of each key fit the limit that is asked for. -/
theorem nothing_dropped_iff (h : Loaded y moduleNode rate time rules rule) (hk : Kept rate time)
    {ps : List Arrival} (hroom : RoomFor rule emptyMaps ps) :
    (∀ pre p post, ps = pre ++ p :: post → verdictAfter rules emptyMaps pre p = .accept) ↔
      ∀ k, Fits (burst rate time) rate.rate (packetsOf rule k ps) := by
  obtain ⟨hrate, hcap⟩ := h.limit hk
  have hkey : ∀ k, acceptedOf rules rule k ps emptyMaps = bytes (packetsOf rule k ps) ↔
      Fits (burst rate time) rate.rate (packetsOf rule k ps) := by
    intro k
    have hall : RoomFor rule emptyMaps ([] ++ ps ++ []) := by rwa [List.nil_append, List.append_nil]
    have hnever : NeverFull rules rule k ps emptyMaps := neverFull_of_room h.lookup hall k
    have hempty : emptyMaps.buckets.lookup k = (.empty : Buckets).lookup k := rfl
    rw [acceptedOf_eq h.lookup ps hempty (.inr (by decide)) hnever, accepted_eq_bytes_iff]
    exact iff_of_eq (congrArg₂ (Fits · · _) hcap hrate)
  simp only [← hkey, acceptedOf_eq_bytes_iff]
  constructor
  · intro hall k pre p post e _
    exact hall pre p post e
  · intro hall pre p post e
    rcases ht : ruleMatch rule p.ctx with _ | t
    · exact (verdict_of_none h.lookup ht _).1
    · exact hall (bucketKey rule t) pre p post e (by rw [ht]; rfl)

/-- Together they are longer than the burst. -/
theorem the_other_is_dropped :
    ¬ ∀ pre p post, twoAtOnce = pre ++ p :: post → verdictAfter (oneRule slowRule) emptyMaps pre p = .accept := by
  intro h
  have hfits := (nothing_dropped_iff slow_loaded slow_kept room_twoAtOnce).mp h
    (bucketKey slowRule (tupleOf slowFlow)) ⟨7, 28⟩ [⟨7, 28⟩] List.infix_rfl
  rw [slow_burst] at hfits
  revert hfits
  decide

end Ksight.Wirefisher.ConfiguredLimit
