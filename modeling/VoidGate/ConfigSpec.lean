import VoidGate.Config
import Mathlib.Data.List.Nodup

/-!
# What a config file means

The loader applies the settings of a file line by line. Declaratively, every field
of the configuration is decided by one key: by its last setting in the file, or
else by the default. An empty list of networks counts as no setting.
-/

namespace VoidGate

open Runs

/-- The keys of a config file. -/
inductive Key where
  | interface
  | xdpMode
  | logFile
  | pidFile
  | ctlSocketGroup
  | wakePps
  | wakeMbps
  | idlePollMs
  | clearSeconds
  | thresholdPps
  | thresholdMbps
  | banTime
  | aggregateK
  | metricsPort
  | remoteMapSize
  | dropMapSize
  | allowPorts
  | localNetworks
  | allowNetworks
  deriving DecidableEq

namespace Key

def text : Key → List UInt8
  | interface => bytes "interface"
  | xdpMode => bytes "xdp_mode"
  | logFile => bytes "log_file"
  | pidFile => bytes "pid_file"
  | ctlSocketGroup => bytes "ctl_socket_group"
  | wakePps => bytes "wake_pps"
  | wakeMbps => bytes "wake_mbps"
  | idlePollMs => bytes "idle_poll_ms"
  | clearSeconds => bytes "clear_seconds"
  | thresholdPps => bytes "threshold_pps"
  | thresholdMbps => bytes "threshold_mbps"
  | banTime => bytes "ban_time"
  | aggregateK => bytes "aggregate_k"
  | metricsPort => bytes "metrics_port"
  | remoteMapSize => bytes "remote_map_size"
  | dropMapSize => bytes "drop_map_size"
  | allowPorts => bytes "allow_ports"
  | localNetworks => bytes "local_networks"
  | allowNetworks => bytes "allow_networks"

def all : List Key :=
  [interface, xdpMode, logFile, pidFile, ctlSocketGroup, wakePps, wakeMbps, idlePollMs,
    clearSeconds, thresholdPps, thresholdMbps, banTime, aggregateK, metricsPort, remoteMapSize,
    dropMapSize, allowPorts, localNetworks, allowNetworks]

theorem mem_all (k : Key) : k ∈ all := by cases k <;> decide

theorem text_injective : Function.Injective text := by
  have hnodup : (all.map text).Nodup := by decide +kernel
  exact fun k k' h => List.inj_on_of_nodup_map hnodup (mem_all k) (mem_all k') h

def Counts (k : Key) (val : List UInt8) : Prop := k = localNetworks ∨ k = allowNetworks → val ≠ []

instance (k : Key) (val : List UInt8) : Decidable (k.Counts val) :=
  inferInstanceAs (Decidable (_ → _))

end Key

/-- The settings of a file, as key and value, in their order. -/
def settings (content : List UInt8) : List (List UInt8 × List UInt8) :=
  (getlines content).filterMap configSetting

def lastSetting (ss : List (List UInt8 × List UInt8)) (k : Key) : Option (List UInt8) :=
  ((ss.filter fun s => s.1 = k.text ∧ k.Counts s.2).getLast?).map Prod.snd

def configOf (pton : InetPton) (last : Key → Option (List UInt8)) : VgConfig :=
  let d := vgConfigDefaults pton
  { interface := ((last .interface).map (snprintf 32)).getD d.interface
    xdpMode := ((last .xdpMode).map (snprintf 16)).getD d.xdpMode
    logFile := ((last .logFile).map (snprintf 256)).getD d.logFile
    pidFile := ((last .pidFile).map (snprintf 256)).getD d.pidFile
    ctlSocketGroup := ((last .ctlSocketGroup).map (snprintf 64)).getD d.ctlSocketGroup
    wakePps := ((last .wakePps).bind parseU64).getD d.wakePps
    wakeMbps := ((last .wakeMbps).bind parseU64).getD d.wakeMbps
    idlePollMs := ((last .idlePollMs).bind parseInt).getD d.idlePollMs
    clearSeconds := ((last .clearSeconds).bind parseInt).getD d.clearSeconds
    thresholdPps := ((last .thresholdPps).bind parseU64).getD d.thresholdPps
    thresholdMbps := ((last .thresholdMbps).bind parseU64).getD d.thresholdMbps
    banTime := ((last .banTime).bind parseInt).getD d.banTime
    aggregateK := ((last .aggregateK).bind parseInt).getD d.aggregateK
    metricsPort := ((last .metricsPort).bind parseInt).getD d.metricsPort
    remoteMapSize := ((last .remoteMapSize).bind parseU64).getD d.remoteMapSize
    dropMapSize := ((last .dropMapSize).bind parseU64).getD d.dropMapSize
    allowPorts := ((last .allowPorts).bind parseAllowPorts).getD d.allowPorts
    localCidr := ((last .localNetworks).bind (parseCsvCidrs pton)).getD d.localCidr
    allowCidr := ((last .allowNetworks).bind (parseCsvCidrs pton)).getD d.allowCidr
    autoLocal := (last .localNetworks).isNone }

/-- The meaning of a file: a poll interval of 0 stands for a second. -/
def fileConfig (pton : InetPton) (content : List UInt8) : VgConfig :=
  let c := configOf pton (lastSetting (settings content))
  { c with idlePollMs := if c.idlePollMs = 0 then 1000 else c.idlePollMs }

/-- What one more setting does to the last values. -/
def record (last : Key → Option (List UInt8)) (text val : List UInt8) (k : Key) :
    Option (List UInt8) :=
  if text = k.text ∧ k.Counts val then some val else last k

theorem lastSetting_snoc (ss : List (List UInt8 × List UInt8)) (text val : List UInt8) :
    lastSetting (ss ++ [(text, val)]) = record (lastSetting ss) text val := by
  funext k
  by_cases h : text = k.text ∧ k.Counts val
  · simp [lastSetting, record, List.filter_append, h]
  · simp [lastSetting, record, List.filter_append, h]

theorem record_text (last : Key → Option (List UInt8)) (k : Key) {val : List UInt8}
    (h : k.Counts val) : record last k.text val = Function.update last k (some val) := by
  funext k'
  by_cases hk : k' = k
  · simp [record, hk, h]
  · have hne : k.text ≠ k'.text := fun he => hk (Key.text_injective he).symm
    simp [record, hk, hne]

theorem record_of_ne (last : Key → Option (List UInt8)) {text val : List UInt8}
    (h : ∀ k : Key, text = k.text → ¬ k.Counts val) : record last text val = last := by
  funext k
  simp only [record]
  exact if_neg fun hk => h k hk.1 hk.2

section Scalars
variable {pton : InetPton} {last : Key → Option (List UInt8)} {c' : VgConfig} {val : List UInt8}

private theorem scalar_configOf {e : List UInt8 × (VgConfig → List UInt8 → Option VgConfig)}
    (he : e ∈ scalars) (h : e.2 (configOf pton last) val = some c') :
    c' = configOf pton (record last e.1 val) := by
  have hrec (k : Key) (hk : k.Counts val) (hkey : e.1 = k.text)
      (hc : c' = configOf pton (Function.update last k (some val))) :
      c' = configOf pton (record last e.1 val) := by
    rw [hkey, record_text last k hk]
    exact hc
  simp only [scalars, List.mem_cons, List.not_mem_nil, or_false] at he
  rcases he with rfl | rfl | rfl | rfl | rfl | rfl | rfl | rfl | rfl | rfl | rfl | rfl | rfl |
    rfl | rfl | rfl
  all_goals dsimp only at h
  · exact hrec .interface (by simp [Key.Counts]) rfl (applyStr_some h)
  · exact hrec .xdpMode (by simp [Key.Counts]) rfl (applyStr_some h)
  · exact hrec .logFile (by simp [Key.Counts]) rfl (applyStr_some h)
  · exact hrec .pidFile (by simp [Key.Counts]) rfl (applyStr_some h)
  · exact hrec .ctlSocketGroup (by simp [Key.Counts]) rfl (applyStr_some h)
  · obtain ⟨v, hv, rfl⟩ := applyU64_some h
    exact hrec .wakePps (by simp [Key.Counts]) rfl (by simp [configOf, hv])
  · obtain ⟨v, hv, rfl⟩ := applyU64_some h
    exact hrec .wakeMbps (by simp [Key.Counts]) rfl (by simp [configOf, hv])
  · obtain ⟨v, hv, rfl⟩ := applyI32_some h
    exact hrec .idlePollMs (by simp [Key.Counts]) rfl (by simp [configOf, hv])
  · obtain ⟨v, hv, rfl⟩ := applyI32_some h
    exact hrec .clearSeconds (by simp [Key.Counts]) rfl (by simp [configOf, hv])
  · obtain ⟨v, hv, rfl⟩ := applyU64_some h
    exact hrec .thresholdPps (by simp [Key.Counts]) rfl (by simp [configOf, hv])
  · obtain ⟨v, hv, rfl⟩ := applyU64_some h
    exact hrec .thresholdMbps (by simp [Key.Counts]) rfl (by simp [configOf, hv])
  · obtain ⟨v, hv, rfl⟩ := applyI32_some h
    exact hrec .banTime (by simp [Key.Counts]) rfl (by simp [configOf, hv])
  · obtain ⟨v, hv, rfl⟩ := applyI32_some h
    exact hrec .aggregateK (by simp [Key.Counts]) rfl (by simp [configOf, hv])
  · obtain ⟨v, hv, rfl⟩ := applyI32_some h
    exact hrec .metricsPort (by simp [Key.Counts]) rfl (by simp [configOf, hv])
  · obtain ⟨v, hv, rfl⟩ := applyU32_some h
    exact hrec .remoteMapSize (by simp [Key.Counts]) rfl (by simp [configOf, hv])
  · obtain ⟨v, hv, rfl⟩ := applyU32_some h
    exact hrec .dropMapSize (by simp [Key.Counts]) rfl (by simp [configOf, hv])

end Scalars

theorem find_text_isSome {k : Key} (hp : k ≠ .allowPorts) (hl : k ≠ .localNetworks)
    (ha : k ≠ .allowNetworks) : (scalars.find? (·.1 == k.text)).isSome := by
  rw [List.find?_isSome]
  have hrow : ∃ e ∈ scalars, e.1 = k.text := by
    cases k with
    | allowPorts => exact absurd rfl hp
    | localNetworks => exact absurd rfl hl
    | allowNetworks => exact absurd rfl ha
    | _ => simp [scalars, Key.text]
  obtain ⟨e, he, hk⟩ := hrow
  exact ⟨e, he, by simpa using hk⟩

private theorem applySetting_configOf {pton : InetPton} {last : Key → Option (List UInt8)}
    {c' : VgConfig} {text val : List UInt8}
    (h : applySetting pton (configOf pton last) text val = some c') :
    c' = configOf pton (record last text val) := by
  rw [applySetting] at h
  split at h
  · rename_i e he
    have htext : e.1 = text := by simpa using List.find?_some he
    rw [← htext]
    exact scalar_configOf (List.mem_of_find?_eq_some he) h
  · rename_i hnone
    split_ifs at h with hports hlocal hempty hallow hempty
    · obtain ⟨ports, hp, rfl⟩ := Option.map_eq_some_iff.mp h
      rw [hports, show bytes "allow_ports" = Key.allowPorts.text from rfl,
        record_text last .allowPorts (by simp [Key.Counts])]
      simp [configOf, hp]
    · cases h
      rw [record_of_ne]
      intro k hk hcounts
      have : k = .localNetworks := Key.text_injective (hk.symm.trans hlocal)
      exact hcounts (.inl this) hempty
    · obtain ⟨nets, hn, rfl⟩ := Option.map_eq_some_iff.mp h
      rw [hlocal, show bytes "local_networks" = Key.localNetworks.text from rfl,
        record_text last .localNetworks fun _ => hempty]
      simp [configOf, hn]
    · cases h
      rw [record_of_ne]
      intro k hk hcounts
      have : k = .allowNetworks := Key.text_injective (hk.symm.trans hallow)
      exact hcounts (.inr this) hempty
    · obtain ⟨nets, hn, rfl⟩ := Option.map_eq_some_iff.mp h
      rw [hallow, show bytes "allow_networks" = Key.allowNetworks.text from rfl,
        record_text last .allowNetworks fun _ => hempty]
      simp [configOf, hn]
    · cases h
      rw [record_of_ne]
      rintro k rfl -
      have hsome := @find_text_isSome k
        (fun he => hports (by rw [he]; rfl)) (fun he => hlocal (by rw [he]; rfl))
        (fun he => hallow (by rw [he]; rfl))
      rw [hnone] at hsome
      cases hsome

private theorem foldlM_configLine {pton : InetPton} {lines : List (List UInt8)} {c : VgConfig}
    (h : lines.foldlM (configLine pton) (vgConfigDefaults pton) = some c) :
    c = configOf pton (lastSetting (lines.filterMap configSetting)) := by
  induction lines using List.reverseRecOn generalizing c with
  | nil =>
    cases h
    rfl
  | append_singleton lines line ih =>
    rw [List.foldlM_append] at h
    obtain ⟨b, hb, hline⟩ := Option.bind_eq_some_iff.mp h
    have hstep : configLine pton b line = some c := by simpa using hline
    rw [ih hb, configLine] at hstep
    rw [List.filterMap_append]
    cases hs : configSetting line with
    | none =>
      rw [hs] at hstep
      cases hstep
      simp [hs]
    | some s =>
      rw [hs] at hstep
      rw [applySetting_configOf hstep, ← lastSetting_snoc]
      simp [hs]

private theorem parseInt_nonneg {s : List UInt8} {v : ℤ} (h : parseInt s = some v) : 0 ≤ v := by
  rw [parseInt] at h
  split at h
  · cases h
  · split_ifs at h
    cases h
    exact Int.natCast_nonneg _

private theorem configOf_idlePollMs_nonneg (pton : InetPton) (last : Key → Option (List UInt8)) :
    0 ≤ (configOf pton last).idlePollMs := by
  simp only [configOf]
  cases hv : (last .idlePollMs).bind parseInt with
  | none => simp [vgConfigDefaults]
  | some v =>
    obtain ⟨s, -, hs⟩ := Option.bind_eq_some_iff.mp hv
    exact parseInt_nonneg hs

theorem vgConfigLoad_opened {pton : InetPton} {content : List UInt8} {readError : Bool}
    {n : VgConfig} (h : vgConfigLoad pton (.opened content readError) = some n) :
    readError = false ∧ n = fileConfig pton content := by
  rw [vgConfigLoad] at h
  split at h
  · cases h
  · rename_i c hc
    split_ifs at h with herr hidle
    all_goals
      obtain rfl := foldlM_configLine hc
      have hnonneg := configOf_idlePollMs_nonneg pton
        (lastSetting ((getlines content).filterMap configSetting))
      refine ⟨by simpa using herr, ?_⟩
      obtain rfl := Option.some.inj h
    · simp [fileConfig, settings, show (configOf pton (lastSetting ((getlines content).filterMap
        configSetting))).idlePollMs = 0 by omega]
    · simp [fileConfig, settings, show (configOf pton (lastSetting ((getlines content).filterMap
        configSetting))).idlePollMs ≠ 0 by omega]

def ownAddr (nic : List UInt8) (p : IfAddr) : Option VgCidr :=
  if p.name = some nic then
    p.addr.bind fun a => if skippedAddr a.1 a.2 then none else some (IpAddr.ofOctets a.1 a.2).host
  else none

private theorem localCidrStep_eq (nic : List UInt8) (out : List VgCidr) (p : IfAddr) :
    localCidrStep nic out p =
      if vgMaxCidrList ≤ out.length then out else out ++ (ownAddr nic p).toList := by
  rw [localCidrStep, ownAddr]
  split_ifs with hfull hname
  · rfl
  · cases p.addr with
    | none => simp
    | some a =>
      by_cases hskip : skippedAddr a.1 a.2 = true
      · simp [hname, hskip]
      · simp [hname, hskip]
  · cases p.addr with
    | none => simp
    | some a => simp [hname]

private theorem localCidrFromNic_some (nic : List UInt8) (l : List IfAddr) :
    localCidrFromNic nic (some l) = some ((l.filterMap (ownAddr nic)).take vgMaxCidrList) := by
  have hfold : ∀ out : List VgCidr, out.length ≤ vgMaxCidrList →
      l.foldl (localCidrStep nic) out =
        (out ++ l.filterMap (ownAddr nic)).take vgMaxCidrList := by
    induction l with
    | nil => exact fun out hout => by simp [List.take_of_length_le hout]
    | cons p l ih =>
      intro out hout
      rw [List.foldl_cons, localCidrStep_eq]
      by_cases hfull : vgMaxCidrList ≤ out.length
      · rw [if_pos hfull, ih out hout, List.take_append_of_le_length hfull,
          List.take_append_of_le_length hfull]
      · have hlen : (out ++ (ownAddr nic p).toList).length ≤ vgMaxCidrList := by
          have hone : (ownAddr nic p).toList.length ≤ 1 := by cases ownAddr nic p <;> simp
          rw [List.length_append]
          omega
        rw [if_neg hfull, ih _ hlen, List.append_assoc]
        cases hown : ownAddr nic p <;> simp [hown]
  simp [localCidrFromNic, hfold]

theorem vgConfigAutoLocal_some {ifaddrs : Option (List IfAddr)} {c n : VgConfig}
    (h : vgConfigAutoLocal ifaddrs c = some n) :
    n = { c with localCidr := if c.autoLocal then
        ((ifaddrs.getD []).filterMap (ownAddr c.interface.val)).take vgMaxCidrList
      else c.localCidr } := by
  rw [vgConfigAutoLocal] at h
  by_cases hauto : c.autoLocal = false
  · rw [if_pos hauto] at h
    cases h
    rw [if_neg (by simp [hauto])]
  · rw [if_neg hauto] at h
    cases ifaddrs with
    | none => cases h
    | some l =>
      rw [localCidrFromNic_some] at h
      cases h
      simp [hauto]

end VoidGate
