import TuyaSdk.ScanResult.Messages

/-!
# The country settings and the channels

`rw_ieee80211.c` keeps the country settings as they come, and three functions read them: the one
that fills a scan request, the one that takes or drops a result, and, through the channel of a
stored item, the one that looks up a frequency and asserts that it finds one. What fits together
is stated for settings inside the band (`country_channels`).
-/

namespace TuyaSdk.ScanResult

open TuyaSdk.Lib

inductive WifiCountryPolicy where
  | auto
  | manual
  deriving DecidableEq, Repr

/-- `wifi_country_t` -/
structure WifiCountry where
  cc : List UInt8
  schan : UInt8
  nchan : UInt8
  maxTxPower : Int8
  policy : WifiCountryPolicy
  deriving DecidableEq

/-- `g_country_code` -/
structure WifiCnSt where
  init : Nat
  cfg : WifiCountry
  deriving DecidableEq

inductive SetStatus where
  | kNoErr
  | kNotInitializedErr
  | kParamErr
  deriving DecidableEq, Repr

def rwIeee80211SetCountry (g : WifiCnSt) : Option WifiCountry → SetStatus × WifiCnSt
  | none => (.kParamErr, g)
  | some country =>
    if g.init = 0 then (.kNotInitializedErr, g) else (.kNoErr, { g with cfg := country })

/-- The settings as the handler of the results reads them. -/
def WifiCountry.countryCode (cfg : WifiCountry) : CountryCode :=
  ⟨cfg.policy = .manual, cfg.schan.toNat, cfg.nchan.toNat⟩

/-! ## Frequencies -/

/-- The `center_freq` of `rw_2ghz_channels`. -/
def rw2ghzChannels : List Nat :=
  [2412, 2417, 2422, 2427, 2432, 2437, 2442, 2447, 2452, 2457, 2462, 2467, 2472, 2484]

/-- `rw_ieee80211_get_centre_frequency`; `none` is a frequency of 0, for its `ASSERT`. -/
def rwIeee80211GetCentreFrequency (chanId : Nat) : Option Nat :=
  if 1 ≤ chanId ∧ chanId ≤ 14 then rw2ghzChannels[chanId - 1]? else none

theorem isSome_centreFrequency {c : Nat} :
    (rwIeee80211GetCentreFrequency c).isSome ↔ 1 ≤ c ∧ c ≤ 14 := by
  rw [rwIeee80211GetCentreFrequency]
  constructor
  · intro h
    split at h
    next hc => exact hc
    next => cases h
  · intro hc
    have hlen : rw2ghzChannels.length = 14 := rfl
    rw [if_pos hc, List.getElem?_eq_getElem (by omega)]
    rfl

/-- The look-up of the channel takes a frequency back. -/
theorem getChanId_centreFrequency {c freq : Nat}
    (h : rwIeee80211GetCentreFrequency c = some freq) : rwIeee80211GetChanId freq = c := by
  have hc := isSome_centreFrequency.mp (Option.isSome_iff_exists.mpr ⟨freq, h⟩)
  have hall : ∀ k : Fin 15, 1 ≤ k.val →
      (rwIeee80211GetCentreFrequency k).map rwIeee80211GetChanId = some k.val := by decide
  have hk := hall ⟨c, by omega⟩ hc.1
  rw [h] at hk
  exact Option.some.inj hk

/-- A channel that was found for a frequency is one of the band. -/
theorem getChanId_le (freq : Nat) : rwIeee80211GetChanId freq ≤ 14 := by
  rw [rwIeee80211GetChanId]
  split
  · exact Nat.le_refl _
  · split
    · omega
    · exact Nat.zero_le _

/-! ## The scan request -/

def scanChannelMax : Nat := 42

/-- `struct scan_chan_tag` -/
structure ScanChan where
  freq : Nat
  band : Nat
  flags : Nat
  deriving DecidableEq, Repr

/-- `struct scanu_start_req`, as far as its channels. -/
structure ScanuStartReq where
  chan : Nat → ScanChan
  chanCnt : Nat

/-- How many channels are scanned. -/
def WifiCountry.numChan (cfg : WifiCountry) : Nat :=
  match cfg.policy with
  | .manual => cfg.nchan.toNat
  | .auto => rw2ghzChannels.length

/-- The first passes of the loop of `rw_ieee80211_init_scan_chan`, with the entries that they
write. -/
def scanChanLoop (startChan : Nat) (req : ScanuStartReq) : Nat → Option (ScanuStartReq × List Nat)
  | 0 => some (req, [])
  | i + 1 => do
    let r ← scanChanLoop startChan req i
    let freq ← rwIeee80211GetCentreFrequency (i + startChan)
    return ({ r.1 with chan := fun k => if k = i then ⟨freq, 0, 0⟩ else r.1.chan k }, r.2 ++ [i])

/-- `rw_ieee80211_init_scan_chan`: the request, and the entries of `chan` that are written.
`none` is a failed `ASSERT`. -/
def rwIeee80211InitScanChan (g : WifiCnSt) (req : ScanuStartReq) :
    Option (ScanuStartReq × List Nat) :=
  if g.init = 0 then none
  else do
    let r ← scanChanLoop g.cfg.schan.toNat req g.cfg.numChan
    return ({ r.1 with chanCnt := g.cfg.numChan }, r.2)

/-- The request has an entry with the frequency of the channel. -/
def Requested (req : ScanuStartReq) (c : Nat) : Prop :=
  ∃ i < req.chanCnt, rwIeee80211GetCentreFrequency c = some (req.chan i).freq

/-- `rw_ieee80211_is_scan_rst_in_countrycode` -/
def Accepted (cfg : WifiCountry) (c : Nat) : Prop :=
  rwIeee80211IsScanRstInCountrycode cfg.countryCode c = true

/-- The channels that the settings name lie in the band. -/
def WifiCountry.InBand (cfg : WifiCountry) : Prop :=
  1 ≤ cfg.schan.toNat ∧ (cfg.numChan = 0 ∨ cfg.schan.toNat + cfg.numChan ≤ 15)

theorem scanChanLoop_eq {startChan : Nat} (req : ScanuStartReq) {k : Nat}
    (h : ∀ i < k, 1 ≤ i + startChan ∧ i + startChan ≤ 14) :
    ∃ req', scanChanLoop startChan req k = some (req', List.range k) ∧
      ∀ i < k, rwIeee80211GetCentreFrequency (i + startChan) = some (req'.chan i).freq := by
  induction k with
  | zero => exact ⟨req, rfl, fun i hi => absurd hi (Nat.not_lt_zero i)⟩
  | succ k ih =>
    obtain ⟨req', hloop, hfreq⟩ := ih fun i hi => h i (by omega)
    obtain ⟨freq, hk⟩ := Option.isSome_iff_exists.mp
      (isSome_centreFrequency.mpr (h k (Nat.lt_succ_self k)))
    refine ⟨{ req' with chan := fun i => if i = k then ⟨freq, 0, 0⟩ else req'.chan i }, ?_,
      fun i hi => ?_⟩
    · rw [scanChanLoop, hloop, List.range_succ]
      simp only [Option.bind_eq_bind, Option.bind_some, hk]
      rfl
    · rcases Nat.lt_succ_iff_lt_or_eq.mp hi with hlt | rfl
      · change _ = some (if i = k then ⟨freq, 0, 0⟩ else req'.chan i : ScanChan).freq
        rw [if_neg (Nat.ne_of_lt hlt)]
        exact hfreq i hlt
      · change _ = some (if i = i then ⟨freq, 0, 0⟩ else req'.chan i : ScanChan).freq
        rw [if_pos rfl]
        exact hk

theorem WifiCountry.InBand.channel {cfg : WifiCountry} (h : cfg.InBand) {i : Nat}
    (hi : i < cfg.numChan) : 1 ≤ i + cfg.schan.toNat ∧ i + cfg.schan.toNat ≤ 14 := by
  obtain ⟨hpos, hzero | hle⟩ := h
  · omega
  · omega

/-- Inside the band the request is filled, with the channels from the first one on. -/
theorem initScanChan_eq {g : WifiCnSt} (hinit : g.init ≠ 0) (hband : g.cfg.InBand)
    (req : ScanuStartReq) :
    ∃ req', rwIeee80211InitScanChan g req = some (req', List.range g.cfg.numChan) ∧
      ∀ c, Requested req' c ↔ g.cfg.schan.toNat ≤ c ∧ c < g.cfg.schan.toNat + g.cfg.numChan := by
  obtain ⟨req', hloop, hfreq⟩ := scanChanLoop_eq req (fun _ hi => hband.channel hi)
  refine ⟨{ req' with chanCnt := g.cfg.numChan }, ?_, fun c => ⟨?_, ?_⟩⟩
  · rw [rwIeee80211InitScanChan, if_neg hinit, hloop]
    rfl
  · rintro ⟨i, hi, hc⟩
    have hi : i < g.cfg.numChan := hi
    have heq := getChanId_centreFrequency (hfreq i hi)
    have hceq := getChanId_centreFrequency hc
    change rwIeee80211GetChanId (req'.chan i).freq = c at hceq
    omega
  · rintro ⟨hge, hlt⟩
    refine ⟨c - g.cfg.schan.toNat, by change _ < g.cfg.numChan; omega, ?_⟩
    have h := hfreq (c - g.cfg.schan.toNat) (by omega)
    rwa [Nat.sub_add_cancel hge] at h

/-- With the policy `MANUAL` the results of the channels from the first one on are taken. -/
theorem accepted_manual {cfg : WifiCountry} (hpol : cfg.policy = .manual)
    (hpos : 1 ≤ cfg.schan.toNat) (c : Nat) :
    Accepted cfg c ↔ cfg.schan.toNat ≤ c ∧ c < cfg.schan.toNat + cfg.nchan.toNat := by
  have hs := cfg.schan.toNat_lt
  have hn := cfg.nchan.toNat_lt
  have hcode : cfg.countryCode = ⟨true, cfg.schan.toNat, cfg.nchan.toNat⟩ := by
    rw [WifiCountry.countryCode, hpol]
    rfl
  rw [Accepted, hcode, rwIeee80211IsScanRstInCountrycode]
  simp only [not_true_eq_false, if_false]
  split
  next h =>
    refine iff_of_false Bool.false_ne_true ?_
    omega
  next h =>
    refine iff_of_true rfl ?_
    omega

/-- With the policy `AUTO` every result is taken. -/
theorem accepted_auto {cfg : WifiCountry} (hpol : cfg.policy = .auto) (c : Nat) :
    Accepted cfg c := by
  have hcode : cfg.countryCode = ⟨false, cfg.schan.toNat, cfg.nchan.toNat⟩ := by
    rw [WifiCountry.countryCode, hpol]
    rfl
  rw [Accepted, hcode]
  rfl

/-! ## The stored channels -/

variable {heap : Heap Block} {ptr : Nat} {es : List Entry} {extra : List Nat} {env : Env}
  {ind : ScanInd} {allocs : Allocs} {onChannel : Bool} {P : StaScanRes → Prop}

/-- What holds of the items and of the one that is made of the frame holds of the items after it
was put into the table. -/
theorem Table.addItem_all (h : Table heap ptr es extra) {replaceIndex : Option Nat} {chann : Nat}
    {ies : List UInt8} (hlen : es.length < maxBssList)
    (hplace : Place ind onChannel es (.put replaceIndex)) (hall : ∀ e ∈ es, P e.2)
    (hnew : P (itemOf env ind chann onChannel ies)) :
    ∃ heap' es', addItem env ind allocs heap ptr chann onChannel replaceIndex ies = some heap' ∧
      Table heap' ptr es' extra ∧ ∀ e ∈ es', P e.2 := by
  rw [addItem]
  by_cases halloc : allocs.item = true
  · rw [if_pos halloc]
    have hmalloc := h.malloc (.item (itemOf env ind chann onChannel ies))
    have hitem : itemAt (heap.malloc (.item (itemOf env ind chann onChannel ies))) heap.next =
        some (itemOf env ind chann onChannel ies) := itemAt_eq.mpr Heap.block_malloc_same
    cases replaceIndex with
    | none =>
      obtain ⟨heap', hput, -, htable⟩ := hmalloc.putItem_append hitem hlen hplace
      refine ⟨heap', _, hput, htable, fun e he => ?_⟩
      rcases List.mem_append.mp he with he | he
      · exact hall e he
      · rw [List.mem_singleton.mp he]
        exact hnew
    | some i =>
      obtain ⟨-, pre, e, post, rfl, rfl, hb, -⟩ := hplace
      obtain ⟨heap', hput, -, htable⟩ := hmalloc.putItem_replace hitem hb
      refine ⟨heap', _, hput, htable, fun e' he' => ?_⟩
      rcases List.mem_append.mp he' with he' | he'
      · exact hall e' (List.mem_append_left _ he')
      · rcases List.mem_cons.mp he' with rfl | he'
        · exact hnew
        · exact hall e' (List.mem_append_right _ (List.mem_cons_of_mem _ he'))
  · rw [if_neg halloc]
    exact ⟨heap, es, rfl, h, hall⟩

theorem forall₂_kept_all {es' : List Entry} (h : List.Forall₂ Kept es es')
    (hlevel : ∀ it level, P it → P { it with level := level }) (hall : ∀ e ∈ es, P e.2) :
    ∀ e ∈ es', P e.2 := by
  induction h with
  | nil => exact hall
  | cons hk _ ih =>
    intro e he
    rcases List.mem_cons.mp he with rfl | he
    · obtain ⟨-, level, -, heq⟩ := hk
      rw [heq]
      exact hlevel _ _ (hall _ List.mem_cons_self)
    · exact ih (fun e he => hall e (List.mem_cons_of_mem _ he)) e he

/-- What does not depend on the level, and holds of the items and of the one that may be made of
the frame, holds of the items after it. -/
theorem Table.mhdrScanuResultInd_all (h : Table heap ptr es [])
    (hlevel : ∀ it level, P it → P { it with level := level }) (hall : ∀ e ∈ es, P e.2)
    (hnew : ∀ chann onChannel ies, channelOf env ind = some (chann, onChannel) →
      P (itemOf env ind chann onChannel ies)) :
    ∃ heap' es', mhdrScanuResultInd env ind allocs heap ptr = some heap' ∧
      Table heap' ptr es' [] ∧ ∀ e ∈ es', P e.2 := by
  rw [mhdrScanuResultInd, h.shell]
  simp only [Option.bind_eq_bind, Option.bind_some, List.length_map]
  by_cases hfull : maxBssList ≤ es.length
  · exact ⟨heap, es, if_pos hfull, h, hall⟩
  rw [if_neg hfull]
  cases hch : channelOf env ind with
  | none => exact ⟨heap, es, rfl, h, hall⟩
  | some ch =>
    obtain ⟨chann, onChannel⟩ := ch
    obtain ⟨heap₁, es₁, verdict, hcheck, h₁, hkept, hplace⟩ := h.checkDuplicate_eq ind onChannel
    have hall₁ := forall₂_kept_all hkept hlevel hall
    simp only [hcheck, Option.bind_some]
    cases verdict with
    | exit => exact ⟨heap₁, es₁, rfl, h₁, hall₁⟩
    | put replaceIndex =>
      have hlen : es₁.length < maxBssList := by
        rw [← hkept.length_eq]
        omega
      by_cases hscan : env.wpaIsScanOnly = true
      · simp only [if_pos hscan]
        by_cases hies : allocs.ies = true
        · simp only [if_pos hies]
          obtain ⟨heap₂, es₂, hadd, h₂, hall₂⟩ :=
            (h₁.malloc _).addItem_all hlen hplace hall₁ (hnew chann onChannel _ hch)
          obtain ⟨heap₃, hfree, -, h₃⟩ := h₂.free_extra
          rw [hadd, Option.bind_some]
          exact ⟨heap₃, es₂, hfree, h₃, hall₂⟩
        · simp only [if_neg hies]
          exact ⟨heap₁, es₁, rfl, h₁, hall₁⟩
      · simp only [if_neg hscan]
        obtain ⟨heap₂, es₂, hadd, h₂, hall₂⟩ :=
          h₁.addItem_all hlen hplace hall₁ (hnew chann onChannel _ hch)
        exact ⟨heap₂, es₂, hadd, h₂, hall₂⟩

/-- The frame names a channel of the band: in its DS element, which the policy `MANUAL` checks, or
without one by its frequency. -/
def FrameInBand (cfg : WifiCountry) (env : Env) (ind : ScanInd) : Prop :=
  match env.macIeFind ind.payload macBeaconVariablePartOft ind.viesLen macEltidDs with
  | some elmtAddr =>
    let chann := (ind.payload (elmtAddr + macDsChannelOft)).toNat
    cfg.policy = .manual ∨ 1 ≤ chann ∧ chann ≤ 14
  | none => rwIeee80211GetChanId ind.centerFreq ≠ 0

/-- The look-up of the supplicant finds a frequency for the item. -/
def HasFrequency (it : StaScanRes) : Prop := (rwIeee80211GetCentreFrequency it.channel).isSome

theorem channelOf_inBand {cfg : WifiCountry} (hband : cfg.InBand)
    (henv : env.country = cfg.countryCode) (hframe : FrameInBand cfg env ind) {chann : Nat}
    (h : channelOf env ind = some (chann, onChannel)) : 1 ≤ chann ∧ chann ≤ 14 := by
  rw [channelOf] at h
  rw [FrameInBand] at hframe
  cases hie : env.macIeFind ind.payload macBeaconVariablePartOft ind.viesLen macEltidDs with
  | none =>
    rw [hie] at h hframe
    obtain ⟨rfl, -⟩ := Prod.mk.inj (Option.some.inj h)
    have hle := getChanId_le ind.centerFreq
    have hne : rwIeee80211GetChanId ind.centerFreq ≠ 0 := hframe
    omega
  | some elmtAddr =>
    rw [hie] at h hframe
    simp only at h hframe
    split at h
    next => cases h
    next hacc =>
      obtain ⟨rfl, -⟩ := Prod.mk.inj (Option.some.inj h)
      rcases hframe with hpol | hin
      · rw [henv, Bool.not_eq_false] at hacc
        obtain ⟨hge, hlt⟩ := (accepted_manual hpol hband.1 _).mp hacc
        have hnum : cfg.numChan = cfg.nchan.toNat := by
          rw [WifiCountry.numChan, hpol]
        obtain ⟨hpos, hzero | hle⟩ := hband
        · omega
        · omega
      · exact hin

/-! ## Settings, requests and results together -/

/-- A scan request can be made: no look-up fails, the entries that are written are in the array,
and the channels requested are the wanted ones, all in the band. -/
def ChannelsFit (g : WifiCnSt) (wanted : Nat → Prop) : Prop :=
  ∀ req, ∃ req' writes, rwIeee80211InitScanChan g req = some (req', writes) ∧
    (∀ i ∈ writes, i < scanChannelMax) ∧ (∀ c < 256, Requested req' c ↔ wanted c) ∧
    ∀ c, Requested req' c → 1 ≤ c ∧ c ≤ 14

/-- No frame leaves an item in the table for which the look-up of the supplicant fails. -/
def StoresFrequencies (g : WifiCnSt) (env : Env) (ind : ScanInd) : Prop :=
  ∀ allocs heap ptr es, Table heap ptr es [] → (∀ e ∈ es, HasFrequency e.2) →
    ∃ heap' es', mhdrScanuResultInd { env with country := g.cfg.countryCode } ind allocs heap ptr =
      some heap' ∧ Table heap' ptr es' [] ∧ ∀ e ∈ es', HasFrequency e.2

theorem channelsFit_of_inBand {g : WifiCnSt} {wanted : Nat → Prop} (hinit : g.init ≠ 0)
    (hband : g.cfg.InBand)
    (hwanted : ∀ c, wanted c ↔ g.cfg.schan.toNat ≤ c ∧ c < g.cfg.schan.toNat + g.cfg.numChan) :
    ChannelsFit g wanted := by
  intro req
  obtain ⟨req', hreq, hiff⟩ := initScanChan_eq hinit hband req
  refine ⟨req', _, hreq, fun i hi => ?_, fun c _ => (hiff c).trans (hwanted c).symm, fun c hc => ?_⟩
  · have hch := hband.channel (List.mem_range.mp hi)
    have hmax : scanChannelMax = 42 := rfl
    omega
  · obtain ⟨hge, hlt⟩ := (hiff c).mp hc
    have hch := hband.channel (i := c - g.cfg.schan.toNat) (by omega)
    omega

theorem storesFrequencies_of_inBand {g : WifiCnSt} {env : Env} {ind : ScanInd}
    (hband : g.cfg.InBand) (hframe : FrameInBand g.cfg env ind) : StoresFrequencies g env ind := by
  intro allocs heap ptr es htable hall
  refine htable.mhdrScanuResultInd_all (P := HasFrequency) (fun it level h => h) hall ?_
  intro chann onChannel ies hch
  have hcountry : ({ env with country := g.cfg.countryCode } : Env).country = g.cfg.countryCode :=
    rfl
  exact isSome_centreFrequency.mpr (channelOf_inBand hband hcountry hframe hch)

/-- Settings that name channels of the band make scan requests of just these channels. With the
policy `MANUAL` the results of these channels are taken; with `AUTO` the request is for the whole
band, and every result is taken. A frame that names a channel of the band leaves only items with
frequencies. -/
theorem country_channels {g g' : WifiCnSt} {country : WifiCountry}
    (hset : rwIeee80211SetCountry g (some country) = (.kNoErr, g')) (hband : country.InBand) :
    (country.policy = .manual → ChannelsFit g' (Accepted g'.cfg)) ∧
      (country.policy = .auto →
        ChannelsFit g' (fun c => 1 ≤ c ∧ c ≤ 14) ∧ ∀ c, Accepted g'.cfg c) ∧
      ∀ env ind, FrameInBand g'.cfg env ind → StoresFrequencies g' env ind := by
  rw [rwIeee80211SetCountry] at hset
  split at hset
  next => cases hset
  next hinit =>
    obtain ⟨-, rfl⟩ := Prod.mk.inj hset
    refine ⟨fun hpol => ?_, fun hpol => ⟨?_, accepted_auto hpol⟩, ?_⟩
    · refine channelsFit_of_inBand hinit hband fun c => ?_
      have hnum : country.numChan = country.nchan.toNat := by rw [WifiCountry.numChan, hpol]
      change Accepted country c ↔ _
      rw [accepted_manual hpol hband.1, ← hnum]
    · refine channelsFit_of_inBand hinit hband fun c => ?_
      have hnum : country.numChan = 14 := by
        rw [WifiCountry.numChan, hpol]
        rfl
      change _ ↔ country.schan.toNat ≤ c ∧ c < country.schan.toNat + country.numChan
      obtain ⟨hpos, hzero | hle⟩ := hband
      · omega
      · omega
    · exact fun env ind hframe => storesFrequencies_of_inBand hband hframe

/-- The settings that `rw_ieee80211_init` makes. -/
def countryCn : WifiCountry := ⟨[0x43, 0x4E, 0], 1, 13, 0, .manual⟩

/-- A beacon with a DS element for channel 6, and the search for it. -/
def beaconSix : ScanInd where
  length := 39
  centerFreq := 2437
  rssi := -40
  payload := fun a => if a = 36 then 3 else if a = 37 then 1 else if a = 38 then 6 else 0

def findAtOnce : Env where
  macIeFind := fun mem addr _ id => if mem addr = id then some addr else none
  getSecurityTypeFromIe := fun _ _ _ _ => 0
  wlanGetBssBeaconIes := fun _ _ _ => []
  wpaIsScanOnly := false
  country := countryCn.countryCode

theorem country_channels_cn :
    ChannelsFit ⟨1, countryCn⟩ (Accepted countryCn) ∧
      StoresFrequencies ⟨1, countryCn⟩ findAtOnce beaconSix := by
  have hset : rwIeee80211SetCountry ⟨1, countryCn⟩ (some countryCn) = (.kNoErr, ⟨1, countryCn⟩) :=
    rfl
  have hband : countryCn.InBand := ⟨by decide, Or.inr (by decide)⟩
  obtain ⟨hmanual, -, hframes⟩ := country_channels hset hband
  exact ⟨hmanual rfl, hframes findAtOnce beaconSix (Or.inl rfl)⟩

/-- The same with the policy `AUTO`. -/
def countryAuto : WifiCountry := { countryCn with policy := .auto }

/-- With the policy `AUTO` a result of channel 15 is taken, and none is requested. -/
theorem not_channelsFit_auto :
    rwIeee80211SetCountry ⟨1, countryCn⟩ (some countryAuto) = (.kNoErr, ⟨1, countryAuto⟩) ∧
      ¬ChannelsFit ⟨1, countryAuto⟩ (Accepted countryAuto) := by
  refine ⟨rfl, fun h => ?_⟩
  obtain ⟨req', writes, -, -, hiff, hband⟩ := h ⟨fun _ => ⟨0, 0, 0⟩, 0⟩
  have hin := hband 15 ((hiff 15 (by decide)).mpr (accepted_auto rfl 15))
  omega

end TuyaSdk.ScanResult
