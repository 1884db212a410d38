import Supacloud.FrontendArchive.Lemmas

/-! 配信物の書庫の安全。 -/

namespace Supacloud.FrontendArchive

open List

variable {archive : Archive} {read : List (Path × ℤ)}

def Archive.Acceptable (archive : Archive) : Prop :=
  archive.compressedBytes ≤ maxBytes ∧ archive.tarBytes ≤ maxTarBytes ∧ archive.entries ≠ [] ∧ FrontendArchive.Acceptable archive.entries

theorem read_ok : readFrontendTarZstd archive = .ok read ↔ archive.Acceptable ∧ read = archive.entries.map fun e => (e.name, e.bytes) := by
  unfold readFrontendTarZstd Archive.Acceptable
  by_cases hbys : archive.compressedBytes > maxBytes ∨ archive.tarBytes > maxTarBytes
  · rw [if_pos hbys]
    simp [bind, Except.bind, throw, throwThe]
    omega
  · cases hre : archive.entries.foldlM Reader.consume {} with
    | error error =>
      have hnot : ¬ FrontendArchive.Acceptable archive.entries := fun h => by
        obtain ⟨s, hs⟩ := consume_all.2 h
        simp [hs] at hre
      simp [hbys, hnot, bind, Except.bind]
    | ok s =>
      obtain ⟨hac, hres⟩ := consume_all.1 s hre
      have hbos : archive.compressedBytes ≤ maxBytes ∧ archive.tarBytes ≤ maxTarBytes := by omega
      cases hens : archive.entries with
      | nil => simp [hbys, hres.entries, hens, bind, Except.bind, throw, throwThe, MonadExceptOf.throw]
      | cons e es =>
        rw [hens] at hre hac
        simp [hbys, hres.entries, hens, hac, hbos, bind, Except.bind, pure, Except.pure, eq_comm]

structure PathSafe : Prop where
  accepted : ∀ archive, (∃ read, readFrontendTarZstd archive = .ok read) ↔ archive.Acceptable
  order : ∀ (archive : Archive) entries, archive.entries.Perm entries →
    ((∃ read, readFrontendTarZstd archive = .ok read) ↔ ∃ read, readFrontendTarZstd { archive with entries } = .ok read)
  inside : ∀ archive read, readFrontendTarZstd archive = .ok read → ∀ f ∈ read, ∀ outputDirectory,
    outputPath outputDirectory f.1 = normalize (segments outputDirectory) ++ segments f.1
  roundTrip : ∀ tarSize zstdSize files archive, createFrontendTarZstd tarSize zstdSize files = .ok archive →
    ∃ read, readFrontendTarZstd archive = .ok read ∧ read.Perm (files.toList.map fun f => (f.1, (f.2.length : ℤ)))

theorem accepted_iff (archive) : (∃ read, readFrontendTarZstd archive = .ok read) ↔ archive.Acceptable := by
  simp [read_ok]

theorem created_acceptable {tarSize zstdSize files} (h : createFrontendTarZstd tarSize zstdSize files = .ok archive) :
    archive.Acceptable ∧ archive.entries = files.sorted.map packed ∧ ∀ f ∈ files.sorted, (packed f).bytes = f.2.length := by
  unfold createFrontendTarZstd at h
  simp only [bind, Except.bind, throw, throwThe, MonadExceptOf.throw, pure, Except.pure] at h
  have hperm : files.sorted.Perm files.toList := mergeSort_perm _ _
  split at h
  · cases h
  rename_i hco
  cases hch : files.check 0 files.sorted with
  | error error => simp [hch] at h
  | ok u =>
    simp only [hch] at h
    split at h
    · cases h
    rename_i htar
    split at h
    · cases h
    rename_i hzs
    obtain rfl := Except.ok.inj h
    obtain ⟨hpas, hto⟩ := check_ok hch
    have hbys : ∀ f ∈ files.sorted, (packed f).bytes = f.2.length ∧ (packed f).Regular := by
      intro f hf
      have hle : f.2.length ≤ (files.sorted.map fun f => f.2.length).sum :=
        single_le_sum (by simp) _ (mem_map_of_mem hf)
      have hsa : Library.safe f.2.length = true := by
        have hmax : max 0 maxSourceBytes = 524288000 := rfl
        have hsa : Library.maxSafeInteger = 9007199254740991 := rfl
        simp only [Library.safe, Bool.and_eq_true, decide_eq_true_eq]
        omega
      have hsi : (packed f).size.safeInteger? = some (f.2.length : ℤ) := by
        simp [packed, Library.safeInteger?_natCast, hsa]
      exact ⟨by simp [TarEntry.bytes, hsi], rfl, rfl, _, hsi, by omega⟩
    have hln : files.sorted.length = files.toList.length := hperm.length_eq
    refine ⟨⟨Nat.le_of_not_lt hzs, Nat.le_of_not_lt htar, ?_, ?_⟩, rfl, fun f hf => (hbys f hf).1⟩
    · intro hnil
      have := congrArg length hnil
      simp only [length_map, length_nil] at this
      omega
    · refine ⟨?_, ?_, ?_, ?_, by rw [length_map]; omega, ?_⟩
      · intro e he
        obtain ⟨f, hf, rfl⟩ := mem_map.mp he
        exact (hpas f hf).1
      · intro e he
        obtain ⟨f, hf, rfl⟩ := mem_map.mp he
        exact (hbys f hf).2
      · have hnas : (files.sorted.map packed).map TarEntry.name = files.sorted.map Prod.fst := by simp [packed]
        rw [hnas]
        exact (hperm.map Prod.fst).nodup_iff.mpr files.nodup
      · intro e he p hp
        obtain ⟨f, hf, rfl⟩ := mem_map.mp he
        obtain ⟨g, hg, rfl⟩ := mem_map.mp hp
        exact (hpas g hg).2 f (hperm.mem_iff.mp hf)
      · have hsum : ((files.sorted.map packed).map TarEntry.bytes).sum = ((files.sorted.map fun f => f.2.length).sum : ℕ) := by
          have hmap : (files.sorted.map packed).map TarEntry.bytes = files.sorted.map fun f => (f.2.length : ℤ) := by
            rw [map_map]
            exact map_congr_left fun f hf => (hbys f hf).1
          rw [hmap, Nat.cast_list_sum, map_map]
          rfl
        rw [hsum]
        omega

/-- 検査は、順によらずに安全な書庫だけを受け入れ、どのパスも出力先の下に置き、書き出した書庫をそのまま読み戻す。 -/
theorem archive_safe : PathSafe where
  accepted := accepted_iff
  order archive entries hperm := by
    rw [accepted_iff, accepted_iff]
    have hnil : archive.entries ≠ [] ↔ entries ≠ [] := by
      rw [ne_eq, ne_eq, ← length_eq_zero_iff, ← length_eq_zero_iff, hperm.length_eq]
    exact ⟨fun ⟨h₀, h₁, h₂, h₃⟩ => ⟨h₀, h₁, hnil.mp h₂, h₃.perm hperm⟩, fun ⟨h₀, h₁, h₂, h₃⟩ => ⟨h₀, h₁, hnil.mpr h₂, h₃.perm hperm.symm⟩⟩
  inside archive read hre f hf outputDirectory := by
    obtain ⟨⟨-, -, -, hac⟩, rfl⟩ := read_ok.mp hre
    obtain ⟨e, he, rfl⟩ := mem_map.mp hf
    exact (hac.safe e he).outputPath outputDirectory
  roundTrip tarSize zstdSize files archive hcr := by
    obtain ⟨hac, hens, hbys⟩ := created_acceptable hcr
    refine ⟨_, read_ok.mpr ⟨hac, rfl⟩, ?_⟩
    rw [hens, map_map, map_congr_left (g := fun f => (f.1, (f.2.length : ℤ))) fun f hf => by simp [packed, ← hbys f hf]]
    exact (mergeSort_perm _ _).map _

end Supacloud.FrontendArchive
