import Supacloud.BodyTransfer.Bounded

/-! 頁に詰めたバイトの列。 -/

namespace Supacloud.BodyTransfer

open Reading List

variable {env : Environment} {limit fuel : ℕ} {s s' : Reading} {data rest page bytes : Chunk}

def Allocation.Covers (limit : ℕ) (a : Allocation) : Prop :=
  0 < a.capacity ∧ 2 * a.allocated ≤ a.reserved ∧ a.reserved ≤ 2 * limit

structure Filled (limit : ℕ) (s : Reading) (data : Chunk) : Prop where
  placed : (s.chunks = [] ∧ data = []) ∨
    ∃ init page, s.chunks = init ++ [page] ∧ s.pageUsed ≤ page.length ∧ init.flatten ++ page.take s.pageUsed = data
  allocated : s.allocated = s.chunks.flatten.length
  within : s.allocated ≤ limit
  covered : ∀ a ∈ s.log, a.Covers limit

theorem length_setBytes (page bytes) {offset} (h : offset + bytes.length ≤ page.length) : (setBytes page bytes offset).length = page.length := by
  simp [setBytes]
  omega

theorem take_setBytes (page bytes) {offset} (h : offset + bytes.length ≤ page.length) :
    (setBytes page bytes offset).take (offset + bytes.length) = page.take offset ++ bytes := by
  rw [setBytes, take_append_of_le_length (by simp; omega), take_of_length_le (by simp)]

/-! ## 内側の繰り返し -/

theorem Filled.full (h : Filled limit s data) (hfu : s.openPage?.isSome = false) : data.length = s.allocated := by
  rw [h.allocated]
  rcases h.placed with ⟨hchs, rfl⟩ | ⟨init, page, hchs, hus, rfl⟩
  · simp [hchs]
  · have : s.pageUsed = page.length := by simpa [openPage?, hchs] using hfu
    simp [hchs, this]

def Environment.Refuses (env : Environment) : Prop := ∃ history bytes, env.refuses history bytes = true

theorem allocate_cases (env limit) (s : Reading) : (env.Refuses ∧ s.allocate env limit = { s with failed := some .refused }) ∨
      s.allocate env limit = s.withPage (s.capacity limit) ((s.allocated + s.capacity limit) * 2) := by
  by_cases hre : env.refuses (s.log.map Allocation.reserved) ((s.allocated + s.capacity limit) * 2) = true
  · exact .inl ⟨⟨_, _, hre⟩, if_pos hre⟩
  · exact .inr (if_neg hre)

theorem Filled.withPage (h : Filled limit s data) (hfu : s.openPage?.isSome = false) (hro : data.length < limit) :
    Filled limit (s.withPage (s.capacity limit) ((s.allocated + s.capacity limit) * 2)) data ∧
      (s.withPage (s.capacity limit) ((s.allocated + s.capacity limit) * 2)).openPage?.isSome = true := by
  have hln := h.full hfu
  have hwi := h.within
  have hca : 0 < s.capacity limit ∧ s.allocated + s.capacity limit ≤ limit := by
    have : 0 < bodyChunkBytes := by decide
    unfold Reading.capacity
    omega
  refine ⟨⟨.inr ⟨s.chunks, _, rfl, Nat.zero_le _, ?_⟩, by simp [Reading.withPage, h.allocated], hca.2, ?_⟩, ?_⟩
  · rcases h.placed with ⟨hchs, rfl⟩ | ⟨init, page, hchs, hus, rfl⟩
    · simp [Reading.withPage, hchs]
    · have : s.pageUsed = page.length := by simpa [Reading.openPage?, hchs] using hfu
      simp [Reading.withPage, hchs, this]
  · intro a ha
    rcases mem_append.mp ha with ha | ha
    · exact h.covered a ha
    · obtain rfl := mem_singleton.mp ha
      exact ⟨hca.1, by simp only; omega, by simp only; omega⟩
  · simp [Reading.withPage, Reading.openPage?]
    omega

theorem Filled.fill (h : Filled limit s data) (hop : s.openPage?.isSome = true) (hrs : rest ≠ []) :
    ∃ n, 0 < n ∧ (s.fill rest).2 = rest.drop n ∧ Filled limit (s.fill rest).1 (data ++ rest.take n) ∧
      (s.fill rest).1.total = s.total ∧ (s.fill rest).1.failed = s.failed := by
  rcases h.placed with ⟨hchs, rfl⟩ | ⟨init, page, hchs, hus, rfl⟩
  · simp [openPage?, hchs] at hop
  · have hne : s.pageUsed ≠ page.length := by simpa [openPage?, hchs] using hop
    have hpos : 0 < rest.length := length_pos_iff.mpr hrs
    have hlen : (rest.take (min (page.length - s.pageUsed) rest.length)).length = min (page.length - s.pageUsed) rest.length := by
      simp
    have hfi : s.pageUsed + (rest.take (min (page.length - s.pageUsed) rest.length)).length ≤ page.length := by omega
    have hta := take_setBytes page _ hfi
    have hsi := length_setBytes page _ hfi
    rw [hlen] at hta
    refine ⟨min (page.length - s.pageUsed) rest.length, by omega, by simp [fill, hchs], ⟨.inr ?_, ?_, ?_, ?_⟩, ?_, ?_⟩
    · refine ⟨init, _, by simp [fill, hchs]; rfl, ?_, ?_⟩
      · simp only [fill, hchs, getLast?_concat]
        omega
      · simp only [fill, hchs, getLast?_concat]
        rw [hta, append_assoc]
    · rw [show (s.fill rest).1.allocated = s.allocated by simp [fill, hchs], h.allocated]
      simp [fill, hchs, hsi]
    · rw [show (s.fill rest).1.allocated = s.allocated by simp [fill, hchs]]
      exact h.within
    · simpa [fill, hchs] using h.covered
    · simp [fill, hchs]
    · simp [fill, hchs]

theorem copy_spec (env s) (h : Filled limit s data) (hro : data.length + rest.length ≤ limit) (hfue : rest.length ≤ fuel)
    (hs : s.failed = none) : ∃ s', s.copy env limit fuel rest = some s' ∧
      ((s'.failed = some .refused ∧ env.Refuses ∧ ∀ a ∈ s'.log, a.Covers limit) ∨
        (s'.failed = none ∧ s'.total = s.total ∧ Filled limit s' (data ++ rest))) := by
  induction fuel generalizing s data rest with
  | zero =>
    obtain rfl : rest = [] := length_eq_zero_iff.mp (by omega)
    exact ⟨s, by simp [copy], .inr ⟨hs, rfl, by simpa using h⟩⟩
  | succ fuel ih =>
    cases rest with
    | nil => exact ⟨s, by simp [copy], .inr ⟨hs, rfl, by simpa using h⟩⟩
    | cons byte tail =>
      -- 頁に空きがあるときも、新しい頁を取った後も、少なくとも一バイトを写す。
      have hco : ∀ s₁, Filled limit s₁ data → s₁.openPage?.isSome = true → s₁.failed = none → s₁.total = s.total →
          ∃ s', copy env limit fuel (s₁.fill (byte :: tail)).1 (s₁.fill (byte :: tail)).2 = some s' ∧
            ((s'.failed = some .refused ∧ env.Refuses ∧ ∀ a ∈ s'.log, a.Covers limit) ∨
              (s'.failed = none ∧ s'.total = s.total ∧ Filled limit s' (data ++ byte :: tail))) := by
        intro s₁ h₁ hop hfa hto
        obtain ⟨n, hn, hrs, hfl, hto', hfa'⟩ := h₁.fill hop (cons_ne_nil byte tail)
        have hsp : (byte :: tail).take n ++ (byte :: tail).drop n = byte :: tail := take_append_drop ..
        have hln := congrArg length hsp
        rw [length_append] at hln
        have hta : 0 < ((byte :: tail).take n).length := by
          rw [length_take, length_cons]
          omega
        rw [hrs]
        simp only [length_cons] at hfue hro hln
        obtain ⟨s', hs', hcas⟩ := ih _ hfl
          (show _ + ((byte :: tail).drop n).length ≤ limit by rw [length_append]; omega) (by omega) (hfa'.trans hfa)
        exact ⟨s', hs', by simpa [hto', hto] using hcas⟩
      unfold copy
      cases hop : s.openPage?.isSome with
      | true => simpa [hs] using hco s h hop hs rfl
      | false =>
        rcases allocate_cases env limit s with ⟨hres, hal⟩ | hal
        · exact ⟨{ s with failed := some .refused }, by simp [hal], .inl ⟨rfl, hres, h.covered⟩⟩
        · obtain ⟨h₁, hop₁⟩ := h.withPage hop (by simp only [length_cons] at hro; omega)
          have hfa : (s.withPage (s.capacity limit) ((s.allocated + s.capacity limit) * 2)).failed = none := hs
          simpa [hal, hfa] using hco _ h₁ hop₁ hs rfl

/-! ## 読み取り -/

structure Ended (env : Environment) (limit : ℕ) (body : Chunk) (s : Reading) : Prop where
  covered : ∀ a ∈ s.log, a.Covers limit
  failure : ∀ e ∈ s.failed, (e = .aborted ∧ ∃ n, env.aborted n = true) ∨ (e = .refused ∧ env.Refuses) ∨ (e = .limit ∧ limit < body.length)
  filled : s.failed = none → s.total = body.length ∧ body.length ≤ limit ∧ Filled limit s body

theorem receive_spec (env reads body) (h : Filled limit s data) (hto : s.total = data.length)
    (hro : data.length ≤ limit) (hs : s.failed = none) (hfue : limit ≤ fuel) :
    ∃ s', receive env limit fuel s reads body = some s' ∧ Ended env limit (data ++ body.flatten) s' := by
  induction body generalizing s data reads with
  | nil =>
    cases hab : env.aborted (reads + 1) with
    | true =>
      refine ⟨{ s with failed := some .aborted }, by simp [receive, hab], h.covered, ?_, by simp⟩
      simpa using ⟨_, hab⟩
    | false => exact ⟨s, by simp [receive, hab], h.covered, by simp [hs], fun _ => by simpa [hto, hro] using h⟩
  | cons value body ih =>
    unfold receive
    cases hab : env.aborted (reads + 1) with
    | true => exact ⟨{ s with failed := some .aborted }, by simp, h.covered, by simpa using ⟨_, hab⟩, by simp⟩
    | false =>
      by_cases hem : value.length = 0
      · obtain rfl := length_eq_zero_iff.mp hem
        simpa using ih _ h hto hro hs
      · by_cases hli : limit < s.total + value.length
        · refine ⟨{ s with total := s.total + value.length, failed := some .limit }, by simp [hem, hli], h.covered, ?_, by simp⟩
          simp
          omega
        · obtain ⟨s₁, hco, hcas⟩ := copy_spec env { s with total := s.total + value.length }
            ⟨h.placed, h.allocated, h.within, h.covered⟩ (show _ + value.length ≤ limit by omega) (show _ ≤ fuel by omega) hs
          rcases hcas with ⟨hfa, hres, hcv⟩ | ⟨hfa, hto₁, hfl⟩
          · exact ⟨s₁, by simp [hem, hli, hco, hfa], hcv, by simp [hfa, hres], by simp [hfa]⟩
          · simpa [hem, hli, hco, hfa] using ih _ hfl (by simp [hto₁, hto]) (by simp; omega) hfa

/-! ## 一つの列への写し -/

theorem output_fold {total : ℕ} (chunks : List Chunk) (out pre : Chunk) (hout : out.length = total) (hpre : pre.length ≤ total)
    (hta : out.take pre.length = pre) (hen : total ≤ pre.length + chunks.flatten.length) : (chunks.foldl (fun (out, offset) chunk =>
      let bytes := min chunk.length (total - offset)
      (setBytes out (chunk.take bytes) offset, offset + bytes)) (out, pre.length)).1 = (pre ++ chunks.flatten).take total := by
  induction chunks generalizing out pre with
  | nil =>
    have hlen : pre.length = total := by
      simp only [flatten_nil, length_nil] at hen
      omega
    simpa [take_of_length_le (show out.length ≤ pre.length by omega), take_of_length_le hpre] using hta
  | cons chunk chunks ih =>
    generalize hn : min chunk.length (total - pre.length) = n at *
    have hlen : (chunk.take n).length = n := by
      rw [length_take]
      omega
    have hfi : pre.length + (chunk.take n).length ≤ out.length := by omega
    have hset := take_setBytes out _ hfi
    have hsi := length_setBytes out _ hfi
    rw [hlen, hta] at hset
    have hla : (pre ++ chunk.take n).length = pre.length + n := by rw [length_append, hlen]
    simp only [flatten_cons, length_append] at hen
    -- 短いかたまりは丸ごと写り、長いかたまりで長さが尽きる。
    have hsa : (pre ++ chunk.take n ++ chunks.flatten).take total = (pre ++ (chunk ++ chunks.flatten)).take total := by
      rcases Nat.le_total chunk.length (total - pre.length) with hle | hle
      · rw [take_of_length_le (show chunk.length ≤ n by omega), append_assoc]
      · rw [take_append_of_le_length (by omega), take_of_length_le (show (pre ++ chunk.take n).length ≤ total by omega), take_append,
          take_of_length_le hpre, take_append_of_le_length hle]
        congr 2
        omega
    rw [flatten_cons, ← hsa, foldl_cons]
    simp only [hn, ← hla]
    apply ih
    · omega
    · omega
    · rw [hla, hset]
    · rw [hla]
      have hnil : chunk.length ≤ n ∨ total ≤ pre.length + n := by omega
      omega

theorem Filled.output (h : Filled limit s data) (hto : s.total = data.length) : s.output = data := by
  have hfla : s.chunks.flatten.take data.length = data := by
    rcases h.placed with ⟨hchs, rfl⟩ | ⟨init, page, hchs, hus, rfl⟩
    · simp
    · simp [hchs, take_append, Nat.min_eq_left hus]
  have hln : data.length ≤ s.chunks.flatten.length := by
    rw [← hfla, length_take]
    omega
  have hfo := output_fold s.chunks (replicate s.total 0) [] (length_replicate ..) (by simp) (by simp)
    (by simpa [hto] using hln)
  rw [nil_append, hto, hfla] at hfo
  simpa [Reading.output, hto] using hfo

end Supacloud.BodyTransfer
