import LinuxIPC.BufferBounds
import LinuxIPC.Heap

/-!
# The copy that an address is read from (`input.c`)

`read_ip_address_from_buffer` takes the text apart in a copy of its own, from `strndup`, and frees it
on each of its paths. Pointers into the copy are offsets in its block. Access outside the copy and
to a block that is not allocated is `none`.
-/

namespace LinuxIPC

open CString

namespace AddressMemory

abbrev Strings := Heap (List UInt8)

def strndup (malloc : Malloc (List UInt8)) (heap : Strings) (s : List UInt8) (n : ℕ) :
    Option (ℕ × Strings) := do
  let copy ← Bounded.strndup s n
  let (p, heap) := heap.malloc malloc
  if p = 0 then some (0, heap)
  else do
    let heap ← heap.store p (copy ++ [0])
    some (p, heap)

/-- `strsep(&buffer, ".")` with `buffer` in the block `head`: the heap, and what `buffer` is left at,
`none` for the null pointer. The token is where `buffer` was. -/
def strsep (heap : Strings) (head buffer : ℕ) : Option (Strings × Option ℕ) := do
  let block ← heap.load head
  let (token, next) ← Bounded.strsep dot (block.drop buffer)
  let heap ← heap.store head (block.take buffer ++ token)
  some (heap, next.map fun rest => block.length - rest.length)

/-- The loop of `read_ip_address_from_buffer`, for at most `fuel` tokens: the heap and the number of
groups, which is `none` for the jump to `clean_fail`. -/
def groupLoop (errno : ℤ) (head : ℕ) :
    ℕ → Strings → Option ℕ → ℕ → Option (Strings × Option ℕ)
  | _, heap, none, gpCount => some (heap, some gpCount)
  | 0, _, some _, _ => none
  | fuel + 1, heap, some buffer, gpCount => do
    let (heap, next) ← strsep heap head buffer
    let block ← heap.load head
    match ← Bounded.readIntFromBuffer errno (block.drop buffer) with
    | none => some (heap, none)
    | some ipGp =>
      if ipGp < ipAddrMin ∨ ipGp > ipAddrMax then some (heap, none)
      else groupLoop errno head fuel heap next (gpCount + 1)

def cleanFail (heap : Strings) (head : ℕ) : Option (Strings × Bool) := do
  let heap ← if head ≠ 0 then heap.free head else some heap
  some (heap, false)

/-- The heap and the verdict; a copy of at most `ipAddrLen` characters has no more tokens than those
and one. -/
def readIpAddressFromBuffer (amb : Ambient) (malloc : Malloc (List UInt8)) (heap : Strings)
    (ipAddress : List UInt8) : Option (Strings × Bool) := do
  if (← Bounded.strchr ipAddress dot) = none then some (heap, false)
  else do
    let (buffer, heap) ← strndup malloc heap ipAddress ipAddrLen
    let head := buffer
    let (heap, gpCount) ← groupLoop amb.errno head (ipAddrLen + 1) heap
      (if buffer = 0 then none else some 0) 0
    match gpCount with
    | some gpCount => do
      let heap ← heap.free head
      let head := 0
      if gpCount = ipAddrGp then some (heap, true) else cleanFail heap head
    | none => cleanFail heap head

variable {head : ℕ} {heap : Strings} {done s : List UInt8}

/-- The token in front of a delimiter ends with a NUL, and `buffer` moves behind it. -/
theorem strsep_more (heap : Strings) (hhead : head ≠ 0) {token : List UInt8} (hzero : 0 ∉ token)
    (hdot : dot ∉ token) (done rest : List UInt8) :
    strsep (heap.put head (done ++ (token ++ dot :: rest))) head done.length =
      some (heap.put head (done ++ (token ++ 0 :: rest)), some (done ++ token ++ [0]).length) := by
  have hscan := Bounded.scan_append (p := fun b => b ≠ 0 && b ≠ dot) (m := token) (c := dot)
    (fun b hb => by
      have hb0 : b ≠ 0 := fun heq => hzero (heq ▸ hb)
      have hbd : b ≠ dot := fun heq => hdot (heq ▸ hb)
      simp [hb0, hbd]) (by decide) rest
  have hstrsep : Bounded.strsep dot (token ++ dot :: rest) =
      some (token ++ 0 :: rest, some rest) := by
    rw [Bounded.strsep, hscan, Option.map_some]
    simp
  have hlength : (done ++ (token ++ dot :: rest)).length - rest.length =
      (done ++ token ++ [0]).length := by
    simp only [List.length_append, List.length_cons, List.length_nil]
    omega
  simp only [strsep, heap.load_put_self hhead, Option.bind_eq_bind, Option.bind_some,
    List.drop_left, List.take_left, hstrsep, heap.store_put hhead, Option.map_some, hlength]

/-- Behind the last token, `buffer` is null. -/
theorem strsep_last (heap : Strings) (hhead : head ≠ 0) {token : List UInt8} (hzero : 0 ∉ token)
    (hdot : dot ∉ token) (done : List UInt8) :
    strsep (heap.put head (done ++ (token ++ [0]))) head done.length =
      some (heap.put head (done ++ (token ++ [0])), none) := by
  have hscan := Bounded.scan_append (p := fun b => b ≠ 0 && b ≠ dot) (m := token) (c := 0)
    (fun b hb => by
      have hb0 : b ≠ 0 := fun heq => hzero (heq ▸ hb)
      have hbd : b ≠ dot := fun heq => hdot (heq ▸ hb)
      simp [hb0, hbd]) (by decide) []
  have hstrsep : Bounded.strsep dot (token ++ [0]) = some (token ++ [0], none) := by
    have hne : (0 : UInt8) ≠ dot := by decide
    rw [Bounded.strsep, hscan, Option.map_some]
    simp [hne]
  simp only [strsep, heap.load_put_self hhead, Option.bind_eq_bind, Option.bind_some,
    List.drop_left, List.take_left, hstrsep, heap.store_put hhead, Option.map_none]

/-- An iteration of the loop, given what `strsep` did. -/
theorem groupLoop_succ {errno : ℤ} (hhead : head ≠ 0) {before : Strings} {token rest : List UInt8}
    {next : Option ℕ} (hzero : 0 ∉ token)
    (hstrsep : strsep before head done.length =
      some (heap.put head (done ++ (token ++ 0 :: rest)), next)) (fuel gpCount : ℕ) :
    groupLoop errno head (fuel + 1) before (some done.length) gpCount =
      match readIntFromBuffer errno token with
      | none => some (heap.put head (done ++ (token ++ 0 :: rest)), none)
      | some ipGp =>
        if ipGp < ipAddrMin ∨ ipGp > ipAddrMax then
          some (heap.put head (done ++ (token ++ 0 :: rest)), none)
        else groupLoop errno head fuel (heap.put head (done ++ (token ++ 0 :: rest))) next
          (gpCount + 1) := by
  have hcstr : cstr (token ++ 0 :: rest) = cstr token := by
    rw [cstr_append_of_notMem hzero, cstr_zero_cons, List.append_nil, cstr_eq_self hzero]
  have hread : Bounded.readIntFromBuffer errno (token ++ 0 :: rest) =
      some (readIntFromBuffer errno token) := by
    rw [Bounded.readIntFromBuffer_of_mem (by simp), readIntFromBuffer_congr errno hcstr]
  simp only [groupLoop, hstrsep, Option.bind_eq_bind, Option.bind_some,
    heap.load_put_self hhead, List.drop_left, hread]

/-- The loop counts the groups of what is left of the copy, which it finds in its own block. -/
theorem groupLoop_eq (errno : ℤ) (heap : Strings) (hhead : head ≠ 0) {s : List UInt8}
    (hs : 0 ∉ s) {fuel : ℕ} (hfuel : s.length < fuel) (done : List UInt8) (gpCount : ℕ) :
    ∃ block, groupLoop errno head fuel (heap.put head (done ++ (s ++ [0]))) (some done.length)
        gpCount =
      some (heap.put head block, countGroups errno (strsepTokens dot s) gpCount) := by
  induction fuel generalizing s done gpCount with
  | zero => omega
  | succ fuel ih =>
      by_cases hdot : dot ∈ s
      · obtain ⟨token, rest, rfl, htoken⟩ := List.eq_append_cons_of_mem hdot
        have hzero : 0 ∉ token := fun hmem => hs (List.mem_append_left _ hmem)
        have hrest : 0 ∉ rest := fun hmem =>
          hs (List.mem_append_right _ (List.mem_cons_of_mem _ hmem))
        have hstrsep := strsep_more heap hhead hzero htoken done (rest ++ [0])
        have hblock : done ++ (token ++ 0 :: (rest ++ [0])) =
            (done ++ token ++ [0]) ++ (rest ++ [0]) := by simp
        rw [List.append_assoc, List.cons_append, groupLoop_succ hhead hzero hstrsep, strsepTokens,
          List.splitOn_append_cons_self_of_not_mem htoken, countGroups]
        cases readIntFromBuffer errno token with
        | none => exact ⟨_, rfl⟩
        | some ipGp =>
            dsimp only
            split_ifs
            · exact ⟨_, rfl⟩
            · have hlength : rest.length < fuel := by
                rw [List.length_append, List.length_cons] at hfuel
                omega
              rw [hblock]
              exact ih hrest hlength _ _
      · have hstrsep := strsep_last heap hhead hs hdot done
        rw [groupLoop_succ hhead hs hstrsep, strsepTokens, List.splitOn_eq_singleton hdot,
          countGroups]
        cases readIntFromBuffer errno s with
        | none => exact ⟨_, rfl⟩
        | some ipGp =>
            dsimp only
            split_ifs
            · exact ⟨_, rfl⟩
            · exact ⟨_, by rw [groupLoop]; rfl⟩

theorem strndup_eq (malloc : Malloc (List UInt8)) (heap : Strings) {s copy : List UInt8} {n : ℕ}
    (hcopy : Bounded.strndup s n = some copy) :
    strndup malloc heap s n =
      some (malloc.address heap, heap.put (malloc.address heap) (copy ++ [0])) := by
  by_cases hp : malloc.address heap = 0
  · simp [strndup, hcopy, Heap.malloc, hp]
  · simp [strndup, hcopy, Heap.malloc, hp, heap.store_put hp]

/-- Reading an address touches no memory but its copy and frees the copy on every path: the heap is
left as it was found, and the verdict is that of the text, or a failure when there is no memory for
the copy. -/
theorem address_copy_freed (amb : Ambient) (malloc : Malloc (List UInt8)) (heap : Strings)
    (ipAddress : List UInt8) :
    readIpAddressFromBuffer amb malloc heap ipAddress =
      (Bounded.readIpAddressFromBuffer amb ipAddress).map fun ok =>
        (heap, decide (malloc.address heap ≠ 0) && ok) := by
  rw [readIpAddressFromBuffer, Bounded.readIpAddressFromBuffer]
  cases hchr : Bounded.strchr ipAddress dot with
  | none => rfl
  | some p =>
      cases p with
      | none => simp
      | some i =>
          cases hcopy : Bounded.strndup ipAddress ipAddrLen with
          | none => simp [strndup, hcopy]
          | some copy =>
              obtain ⟨hzero, hlength⟩ := Bounded.of_strndup_eq_some hcopy
              simp only [Option.bind_eq_bind, Option.bind_some, reduceCtorEq, if_false,
                strndup_eq malloc heap hcopy]
              by_cases hp : malloc.address heap = 0
              · simp [hp, groupLoop, Heap.free, cleanFail, ipAddrGp]
              · obtain ⟨block, hloop⟩ := groupLoop_eq amb.errno heap hp hzero
                  (Nat.lt_succ_of_le hlength) [] 0
                have hfree := heap.free_put hp (malloc.fresh heap) block
                rw [List.nil_append, List.length_nil] at hloop
                rw [if_neg hp, hloop]
                cases hgroups : countGroups amb.errno (strsepTokens dot copy) 0 with
                | none => simp [hgroups, cleanFail, hfree, hp]
                | some gpCount =>
                    by_cases hgp : gpCount = ipAddrGp <;>
                      simp [hgroups, cleanFail, hfree, hp, hgp]

end AddressMemory

end LinuxIPC
