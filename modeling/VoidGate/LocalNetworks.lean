import VoidGate.ConfigSpec
import VoidGate.NetworkLists

/-!
# The local networks of an accepted file

`local_networks` with a value turns the addresses of the interface off, and the value
takes their place. Tokens of the list that are empty do not count, so a value of commas
and blanks turns the addresses off and puts nothing in their place.
-/

namespace VoidGate

open DelimitedFields

variable {pton : InetPton}

private theorem length_parseCsvCidrs {val : List UInt8} {nets : List VgCidr}
    (h : parseCsvCidrs pton val = some nets) : nets.length = (fields isspace 44 val).length := by
  rw [parseCsvCidrs_eq] at h
  suffices ∀ (ws : List (List UInt8)) (arr : List VgCidr), ws.foldlM (csvField pton) arr = some nets →
      nets.length = arr.length + ws.length by simpa using this _ [] h
  intro ws
  induction ws with
  | nil =>
    rintro arr h
    cases h
    rfl
  | cons w ws ih =>
    intro arr h
    rw [List.foldlM_cons] at h
    obtain ⟨arr', harr, hrest⟩ := Option.bind_eq_some_iff.mp h
    rw [csvField] at harr
    split_ifs at harr
    obtain ⟨p, -, rfl⟩ := Option.map_eq_some_iff.mp harr
    rw [ih _ hrest, List.length_append, List.length_singleton, List.length_cons]
    omega

private theorem exists_parseCsvCidrs {lines : List (List UInt8)} {c : VgConfig} {val : List UInt8}
    (h : lines.foldlM (configLine pton) (vgConfigDefaults pton) = some c)
    (hval : lastSetting (lines.filterMap configSetting) .localNetworks = some val) :
    ∃ nets, parseCsvCidrs pton val = some nets := by
  induction lines using List.reverseRecOn generalizing c with
  | nil => cases hval
  | append_singleton lines line ih =>
    rw [List.foldlM_append] at h
    obtain ⟨b, hb, hline⟩ := Option.bind_eq_some_iff.mp h
    have hstep : configLine pton b line = some c := by simpa using hline
    rw [List.filterMap_append] at hval
    cases hs : configSetting line with
    | none => exact ih hb (by simpa [hs] using hval)
    | some s =>
      have hsnoc : lastSetting (lines.filterMap configSetting ++ [(s.1, s.2)]) .localNetworks =
          some val := by simpa [hs] using hval
      rw [lastSetting_snoc, record] at hsnoc
      split_ifs at hsnoc with hkey
      · obtain rfl := Option.some.inj hsnoc
        have hne : s.2 ≠ [] := hkey.2 (.inl rfl)
        have htext : s.1 = NetKey.localNetworks.text := hkey.1
        simp only [configLine, hs, htext, NetKey.applySetting_text .localNetworks b hne] at hstep
        obtain ⟨nets, hnets, -⟩ := Option.map_eq_some_iff.mp hstep
        exact ⟨nets, hnets⟩
      · exact ih hb hsnoc

/-- The last line of the file that sets `local_networks` to anything has a value without a network
in it: commas and blanks. -/
def EmptyLocalList : ConfigFile → Prop
  | .missing => False
  | .opened content _ => ∃ val, lastSetting (settings content) .localNetworks = some val ∧
      ∀ b ∈ val, isspace b = true ∨ b = 44

/-- An accepted file leaves the VM with local networks, those of the interface or those it lists,
unless it lists none at all. -/
theorem local_networks_iff {file : ConfigFile} {n : VgConfig} (h : vgConfigLoad pton file = some n) :
    n.autoLocal = true ∨ 1 ≤ n.localCidr.length ↔ ¬ EmptyLocalList file := by
  cases file with
  | missing =>
    cases h
    exact iff_of_true (.inl rfl) fun hno => hno
  | opened content readError =>
    obtain ⟨-, hn⟩ := vgConfigLoad_opened h
    have hauto : n.autoLocal = (lastSetting (settings content) .localNetworks).isNone := by rw [hn]; rfl
    have hnets : n.localCidr =
        ((lastSetting (settings content) .localNetworks).bind (parseCsvCidrs pton)).getD [] := by
      rw [hn]
      rfl
    rw [hauto, hnets, EmptyLocalList]
    cases hlast : lastSetting (settings content) .localNetworks with
    | none => simp
    | some val =>
      have hparse : ∃ nets, parseCsvCidrs pton val = some nets := by
        rw [vgConfigLoad] at h
        split at h
        · cases h
        · rename_i c hc
          exact exists_parseCsvCidrs hc hlast
      obtain ⟨nets, hparse⟩ := hparse
      have hgap : IsGap isspace 44 val ↔ nets.length = 0 := by
        rw [length_parseCsvCidrs hparse, List.length_eq_zero_iff, fields_eq_nil_iff (by decide)]
      rw [Option.bind_some, hparse, Option.getD_some]
      constructor
      · rintro (hno | hone) ⟨val', hval, hempty⟩
        · cases hno
        · obtain rfl := Option.some.inj hval
          have hzero := hgap.mp hempty
          omega
      · intro hno
        by_contra hnone
        exact hno ⟨val, rfl, hgap.mpr (by omega)⟩

/-- A file that lists no network and then one. -/
def relistedFile : ConfigFile :=
  .opened (bytes "local_networks = ,\nlocal_networks = 127.0.0.0\n") false

def relistedConfig : VgConfig :=
  (vgConfigLoad samplePton relistedFile).getD (vgConfigDefaults samplePton)

theorem local_networks_iff_relisted :
    vgConfigLoad samplePton relistedFile = some relistedConfig ∧ ¬ EmptyLocalList relistedFile := by
  have h : vgConfigLoad samplePton relistedFile = some relistedConfig := by decide +kernel
  exact ⟨h, (local_networks_iff h).mp (.inr (by decide +kernel))⟩

/-- A list without a network is accepted, and after it the VM has no local networks, whatever
addresses its interface has. -/
theorem empty_list_no_local_networks :
    ((vgConfigLoad samplePton (.opened (bytes "local_networks = ,\n") false)).bind
        (vgConfigAutoLocal sampleNic)).map (fun c => (c.autoLocal, c.localCidr)) =
      some (false, []) := by
  decide +kernel

end VoidGate
