import LinuxIPC.EnteredTables
import LinuxIPC.FieldTermination

/-!
# The printed table (`rtm.c`)

`routing_table_print` writes a line for each record, with its subnet, its gateway and its interface
in columns. A reader who goes by the lines, the bars and the blanks gets the table back, but for
blanks in front of a text: the addresses that the validators let through hold no bar, and no line of
the admin holds a newline.
-/

namespace LinuxIPC

open CString Runs

def tab : UInt8 := 9

def blank : UInt8 := 32

def dash : UInt8 := 45

def bar : UInt8 := 124

abbrev hdrSize : ℕ := 64

def headerSubnet : List UInt8 := ascii "Destination subnet"

def headerGateway : List UInt8 := ascii "   Gateway IP   "

def headerOif : List UInt8 := ascii "Outgoing interface"

def columnGap : List UInt8 := ascii "  |  "

def alignRight (width : ℕ) (text : List UInt8) : List UInt8 :=
  List.replicate (width - text.length) blank ++ text

/-- What the arrays of `routing_table_print` hold before they are written, and what lies in memory
behind a record. -/
structure PrintMemory where
  header : CharArray hdrSize
  dstSubnet : CharArray (ipAddrLen + 3)
  behind : List UInt8

def MsgBody.fromOif (record : MsgBody) (behind : List UInt8) : List UInt8 :=
  record.oif.bytes ++ behind

def MsgBody.fromGatewayIp (record : MsgBody) (behind : List UInt8) : List UInt8 :=
  record.gatewayIp.bytes ++ record.fromOif behind

def printedHeader (header : CharArray hdrSize) : CharArray hdrSize :=
  snprintf header (headerSubnet ++ columnGap ++ headerGateway ++ columnGap ++ headerOif)

def printedRow (memory : PrintMemory) (record : MsgBody) : List UInt8 :=
  let dstSubnet := printedSubnet memory.dstSubnet record
  tab :: (alignRight headerSubnet.length dstSubnet.text ++ columnGap ++
    alignRight headerGateway.length (cstr (record.fromGatewayIp memory.behind)) ++ columnGap ++
    alignRight headerOif.length (cstr (record.fromOif memory.behind)))

def routingTablePrint (memory : PrintMemory) (rt : RoutingTable) : List UInt8 :=
  if rt.length = 0 then ascii "The routing table has no entries.\n"
  else
    let header := (printedHeader memory.header).text
    ascii "The routing table has the following " ++
      (if rt.length = 1 then ascii "entry:\n" else decimalText rt.length ++ ascii " entries:\n") ++
      (tab :: header ++ newline :: tab :: List.replicate header.length dash ++ [newline]) ++
      rt.flatMap (fun record => printedRow memory record ++ [newline]) ++ [newline]

structure Row where
  subnet : List UInt8
  gateway : List UInt8
  oif : List UInt8
  deriving DecidableEq, Repr

def trim (text : List UInt8) : List UInt8 := text.dropWhile (· = blank)

/-- The texts between the bars, but for the two blanks in front of each. -/
def readRow (line : List UInt8) : Row :=
  let (subnet, rest) := strsep bar line.tail
  let (gateway, rest) := strsep bar (rest.getD [])
  ⟨trim (subnet.rdrop 2), trim (gateway.rdrop 2), trim (rest.getD [])⟩

def readTable (printed : List UInt8) : List Row :=
  (((printed.splitOn newline).drop 3).filter (· ≠ [])).map readRow

def MsgBody.row (record : MsgBody) : Row where
  subnet := trim record.subnetText
  gateway := trim record.gatewayIp.text
  oif := trim record.oif.text

def NoNewline (text : List UInt8) : Prop := newline ∉ text

theorem notMem_alignRight {c : UInt8} (hc : c ≠ blank) (width : ℕ) {text : List UInt8}
    (h : c ∉ text) : c ∉ alignRight width text := by
  rw [alignRight, List.mem_append, not_or]
  exact ⟨fun hmem => hc (List.eq_of_mem_replicate hmem), h⟩

theorem trim_blanks (n : ℕ) (text : List UInt8) :
    trim (List.replicate n blank ++ text) = trim text := by
  rw [trim, List.dropWhile_append_of_pos]
  · rfl
  · exact fun c hc => decide_eq_true (List.eq_of_mem_replicate hc)

theorem strsep_append {delim : UInt8} {token : List UInt8} (h : delim ∉ token)
    (rest : List UInt8) : strsep delim (token ++ delim :: rest) = (token, some rest) := by
  have hpos := decide_ne_of_notMem h
  have hmem : delim ∈ token ++ delim :: rest := by simp
  rw [strsep, if_pos hmem, takeWhile_ne_append_cons h, List.dropWhile_append_of_pos hpos]
  simp

theorem trim_alignRight (width : ℕ) (text : List UInt8) :
    trim (alignRight width text) = trim text :=
  trim_blanks _ text

/-- The columns of a line come back without the blanks that they are filled with. -/
theorem readRow_columns {subnet gateway : List UInt8} (hsubnet : bar ∉ subnet)
    (hgateway : bar ∉ gateway) (oif : List UInt8) (w w' w'' : ℕ) :
    readRow (tab :: (alignRight w subnet ++ columnGap ++ alignRight w' gateway ++ columnGap ++
      alignRight w'' oif)) = ⟨trim subnet, trim gateway, trim oif⟩ := by
  have hne : bar ≠ blank := by decide
  have hblanks : bar ∉ [blank, blank] := by decide
  have hline : alignRight w subnet ++ columnGap ++ alignRight w' gateway ++ columnGap ++
      alignRight w'' oif =
        (alignRight w subnet ++ [blank, blank]) ++ bar ::
          (([blank, blank] ++ alignRight w' gateway ++ [blank, blank]) ++ bar ::
            ([blank, blank] ++ alignRight w'' oif)) := by
    have hgap : columnGap = [blank, blank, bar, blank, blank] := by decide
    simp [hgap]
  have hfirst : bar ∉ alignRight w subnet ++ [blank, blank] := by
    rw [List.mem_append, not_or]
    exact ⟨notMem_alignRight hne w hsubnet, hblanks⟩
  have hsecond : bar ∉ [blank, blank] ++ alignRight w' gateway ++ [blank, blank] := by
    rw [List.mem_append, List.mem_append, not_or, not_or]
    exact ⟨⟨hblanks, notMem_alignRight hne w' hgateway⟩, hblanks⟩
  have hrdrop : ∀ text : List UInt8, (text ++ [blank, blank]).rdrop 2 = text :=
    fun text => List.rdrop_append_length
  have htrim : ∀ text : List UInt8, trim ([blank, blank] ++ text) = trim text := trim_blanks 2
  simp only [readRow, List.tail_cons, hline, strsep_append hfirst, strsep_append hsecond,
    Option.getD_some, hrdrop, htrim, trim_alignRight]

theorem MsgBody.Terminated.printedRow_eq {memory : PrintMemory} {record : MsgBody}
    (h : record.Terminated) (hmask : record.mask.toNat ≤ 32) :
    printedRow memory record =
      tab :: (alignRight headerSubnet.length record.subnetText ++ columnGap ++
        alignRight headerGateway.length record.gatewayIp.text ++ columnGap ++
        alignRight headerOif.length record.oif.text) := by
  have hdest := h.destination
  rw [CharArray.terminated_iff] at hdest
  have hsubnet : (printedSubnet memory.dstSubnet record).text = record.subnetText := by
    rw [printedSubnet, h.cstr_fromDestination]
    refine text_snprintf _ record.zero_notMem_subnetText ?_
    have hm := length_mask hmask
    rw [List.length_append, List.length_cons]
    omega
  have hgateway : cstr (record.fromGatewayIp memory.behind) = record.gatewayIp.text :=
    cstr_append_of_mem h.gatewayIp _
  have hoif : cstr (record.fromOif memory.behind) = record.oif.text := cstr_append_of_mem h.oif _
  rw [printedRow, hsubnet, hgateway, hoif]

theorem notMem_printed {c : UInt8} (hblank : c ≠ blank) (hgap : c ∉ columnGap) (htab : c ≠ tab)
    {a b d : List UInt8} (ha : c ∉ a) (hb : c ∉ b) (hd : c ∉ d) (w w' w'' : ℕ) :
    c ∉ tab :: (alignRight w a ++ columnGap ++ alignRight w' b ++ columnGap ++
      alignRight w'' d) := by
  simp only [List.mem_cons, List.mem_append, not_or]
  exact ⟨htab, ⟨⟨⟨notMem_alignRight hblank w ha, hgap⟩, notMem_alignRight hblank w' hb⟩, hgap⟩,
    notMem_alignRight hblank w'' hd⟩

theorem splitOn_lines {lines : List (List UInt8)} (h : ∀ line ∈ lines, newline ∉ line)
    (rest : List UInt8) :
    (lines.flatMap (· ++ [newline]) ++ rest).splitOn newline = lines ++ rest.splitOn newline := by
  induction lines with
  | nil => rfl
  | cons line lines ih =>
      obtain ⟨hline, hlines⟩ := List.forall_mem_cons.mp h
      have hsplit : (line :: lines).flatMap (· ++ [newline]) ++ rest =
          line ++ newline :: (lines.flatMap (· ++ [newline]) ++ rest) := by simp
      rw [hsplit, List.splitOn_append_cons_self_of_not_mem hline, ih hlines, List.cons_append]

def headerLines (memory : PrintMemory) (rt : RoutingTable) : List (List UInt8) :=
  [ascii "The routing table has the following " ++
      (if rt.length = 1 then ascii "entry:" else decimalText rt.length ++ ascii " entries:"),
    tab :: (printedHeader memory.header).text,
    tab :: List.replicate (printedHeader memory.header).text.length dash]

theorem routingTablePrint_eq (memory : PrintMemory) {rt : RoutingTable} (hne : rt ≠ []) :
    routingTablePrint memory rt =
      (headerLines memory rt ++ rt.map (printedRow memory)).flatMap (· ++ [newline]) ++
        [newline] := by
  have hlength : rt.length ≠ 0 := fun h => hne (List.length_eq_zero_iff.mp h)
  have hone : ascii "entry:\n" = ascii "entry:" ++ [newline] := by decide
  have hmany : ascii " entries:\n" = ascii " entries:" ++ [newline] := by decide
  have hcount : (if rt.length = 1 then ascii "entry:\n" else decimalText rt.length ++
      ascii " entries:\n") = (if rt.length = 1 then ascii "entry:" else decimalText rt.length ++
      ascii " entries:") ++ [newline] := by
    split_ifs
    · exact hone
    · rw [hmany, List.append_assoc]
  rw [routingTablePrint, if_neg hlength, hcount, List.flatMap_append, List.flatMap_map]
  simp only [headerLines, List.flatMap_cons, List.flatMap_nil, List.append_assoc, List.cons_append,
    List.nil_append]

theorem text_printedHeader (header : CharArray hdrSize) :
    (printedHeader header).text =
      headerSubnet ++ columnGap ++ headerGateway ++ columnGap ++ headerOif :=
  text_snprintf header (by decide) (by decide)

theorem newline_notMem_headerLines (memory : PrintMemory) (rt : RoutingTable) :
    ∀ line ∈ headerLines memory rt, newline ∉ line := by
  have hcount : newline ∉ (if rt.length = 1 then ascii "entry:" else decimalText rt.length ++
      ascii " entries:") := by
    split_ifs
    · decide
    · rw [List.mem_append, not_or]
      exact ⟨(digits_decimalText _).notMem (by decide), by decide⟩
  simp only [headerLines, List.forall_mem_cons, text_printedHeader]
  refine ⟨?_, by decide, ?_, by simp⟩
  · rw [List.mem_append, not_or]
    exact ⟨by decide, hcount⟩
  · rw [List.mem_cons, not_or]
    exact ⟨by decide, fun hmem => absurd (List.eq_of_mem_replicate hmem) (by decide)⟩

theorem AddressField.bar_notMem {a : CharArray ipAddrLen} (h : AddressField a) : bar ∉ a.text :=
  h.notMem (by decide) (by decide) (by decide) (by decide) (by decide)

theorem notMem_subnetText {c : UInt8} {r : MsgBody} (h : c ∉ r.destination.text) (hslash : c ≠ slash)
    (hdigit : ¬ isdigit c = true) : c ∉ r.subnetText := by
  simp only [MsgBody.subnetText, List.mem_append, List.mem_cons, not_or]
  exact ⟨h, hslash, (digits_decimalText _).notMem hdigit⟩

/-- A printed table is read as what it shows. -/
theorem readTable_print (memory : PrintMemory) {rt : RoutingTable}
    (hterminated : ∀ r ∈ rt, r.Terminated) (hmask : ∀ r ∈ rt, r.mask.toNat ≤ 32)
    (hentered : ∀ r ∈ rt, r.Entered NoNewline) :
    readTable (routingTablePrint memory rt) = rt.map MsgBody.row := by
  by_cases hne : rt = []
  · have hempty : routingTablePrint memory [] = ascii "The routing table has no entries.\n" := rfl
    rw [hne, hempty]
    decide
  have hrows : ∀ line ∈ rt.map (printedRow memory), newline ∉ line := by
    rintro line hline
    obtain ⟨r, hr, rfl⟩ := List.mem_map.mp hline
    rw [(hterminated r hr).printedRow_eq (hmask r hr)]
    have hsubnet := notMem_subnetText (hentered r hr).destination.newline_notMem (by decide)
      (by decide)
    exact notMem_printed (by decide) (by decide) (by decide) hsubnet
      (hentered r hr).gatewayIp.newline_notMem (hentered r hr).oif _ _ _
  have hlines : ∀ line ∈ headerLines memory rt ++ rt.map (printedRow memory), newline ∉ line :=
    List.forall_mem_append.mpr ⟨newline_notMem_headerLines memory rt, hrows⟩
  have hblank : [newline].splitOn newline = [[], []] := by decide
  have hdrop : ((headerLines memory rt ++ rt.map (printedRow memory)) ++ [[], []]).drop 3 =
      rt.map (printedRow memory) ++ [[], []] := rfl
  rw [readTable, routingTablePrint_eq memory hne, splitOn_lines hlines, hblank, hdrop,
    List.filter_append]
  have hfilter : (rt.map (printedRow memory)).filter (· ≠ []) = rt.map (printedRow memory) := by
    rw [List.filter_eq_self]
    intro line hline
    obtain ⟨r, -, rfl⟩ := List.mem_map.mp hline
    exact decide_eq_true (List.cons_ne_nil _ _)
  have hend : [[], []].filter (fun line : List UInt8 => line ≠ []) = [] := by decide
  rw [hfilter, hend, List.append_nil, List.map_map]
  refine List.map_congr_left fun r hr => ?_
  rw [Function.comp_apply, (hterminated r hr).printedRow_eq (hmask r hr)]
  have hsubnet := notMem_subnetText (hentered r hr).destination.bar_notMem (by decide) (by decide)
  exact readRow_columns hsubnet (hentered r hr).gatewayIp.bar_notMem _ _ _ _

/-- In every state that the admin's lines lead to, as long as the texts accepted fit their arrays,
the printed table is read as the records of the table in their order, each with its texts but for
blanks in front. -/
theorem printed_tables_read (entry : EntryType) (record : MsgBody) (is : List AdminInput)
    (hfits : Along consoleStep TextsFit (Console.init entry record) is) :
    Throughout consoleStep (fun c => ∀ memory : PrintMemory,
      readTable (routingTablePrint memory c.admin.rtm) = c.admin.rtm.map MsgBody.row)
      (Console.init entry record) is := by
  refine throughout_of_along
    (fun c => AdminOk c.admin ∧ FieldsEnd c ∧ EntriesOk NoNewline c.admin) ?_ ?_ ?_ hfits
  · rintro c i c' ⟨hadmin, hend, hentries⟩ hfits hstep
    obtain ⟨answer, hanswer, -, rfl⟩ := consoleStep_eq_some hstep
    have heffect := AdminInput.answer_effect hanswer
    have hline : newline ∉ lineText i.buffer := notMem_takeWhile_ne newline _
    exact ⟨hadmin.step heffect, (hend.after_iff hadmin hanswer hfits.subnet).mpr hfits,
      hentries.step hadmin (zero_notMem_lineText _) hline hline heffect⟩
  · rintro c ⟨hadmin, hend, hentries⟩ memory
    exact readTable_print memory hend.records (fun r hr => (hadmin.validKey r hr).mask_le)
      hentries.records
  · exact ⟨AdminOk.initial entry record, fieldsEnd_init entry record, EntriesOk.init entry record⟩

instance (a : Admin) : Decidable a.ReadsSubnet := inferInstanceAs (Decidable (_ ∨ _))

instance (a : Admin) (text : List UInt8) : Decidable (a.EntersGateway text) :=
  inferInstanceAs (Decidable (_ ∧ _))

instance (c : Console) (i : AdminInput) : Decidable (TextsFit c i) :=
  decidable_of_iff
    ((c.admin.ReadsSubnet → (parseSubnet (lineText i.buffer)).isSome = true →
        (addressText (lineText i.buffer)).length < ipAddrLen) ∧
      (c.admin.EntersGateway (lineText i.buffer) → (lineText i.buffer).length < ipAddrLen) ∧
      (c.admin.state = .creating ∨ c.admin.state = .updating → c.admin.entry = .oif →
        (lineText i.buffer).length ≠ oifLen))
    ⟨fun h => ⟨h.1, h.2.1, h.2.2⟩, fun h => ⟨h.subnet, h.gateway, h.oif⟩⟩

/-- Two records, of which the first is updated, with an interface that starts with a bar. -/
theorem printed_tables_read_session :
    let lines := ["c", "10.0.0.0/8", "10.0.0.1", "eth0", "c", "192.168.100.100/32", "1.2.3.4",
      "| wlan", "u", "10.0.0.0/8", " 10.0.0.2", "tun"].map typed
    Throughout consoleStep (fun c => ∀ memory : PrintMemory,
      readTable (routingTablePrint memory c.admin.rtm) = c.admin.rtm.map MsgBody.row)
      (Console.init .subnet Ambient.zero.heap) lines :=
  printed_tables_read .subnet Ambient.zero.heap _ (by decide +kernel)

end LinuxIPC
