import Supacloud.FrontendArchive.Archive

/-! 書庫の項目の検査は、項目の順によらない。 -/

namespace Supacloud.FrontendArchive

open Library Reader List

variable {a b : Path} {paths found l : List Path} {s s' : Reader} {e : TarEntry} {es : List TarEntry}

def Under (a b : Path) : Prop := ∃ rest, b = a ++ slash :: rest

def Safe (path : Path) : Prop := assertFrontendArchivePath path = .ok ()

/-! ## 階層 -/

theorem join_append {pre post} (hpre : pre ≠ []) (hpo : post ≠ []) : join (pre ++ post) = join pre ++ slash :: join post := by
  unfold join
  induction pre with
  | nil => exact absurd rfl hpre
  | cons s pre ih =>
    cases pre with
    | nil => simp [intercalate_cons_of_ne_nil hpo]
    | cons s' pre => simpa using ih (cons_ne_nil s' pre)

theorem mem_parents : a ∈ parents l ↔ ∃ pre post, l.reverse = pre ++ post ∧ pre ≠ [] ∧ a = join pre := by
  induction l with
  | nil => simp [parents]
  | cons s rest ih =>
    rw [parents, mem_cons, ih, reverse_cons]
    constructor
    · rintro (rfl | ⟨pre, post, heq, hne, rfl⟩)
      · exact ⟨rest.reverse ++ [s], [], by simp, by simp, by simp⟩
      · exact ⟨pre, post ++ [s], by simp [heq], hne, rfl⟩
    · rintro ⟨pre, post, heq, hne, rfl⟩
      rcases eq_nil_or_concat post with rfl | ⟨post, last, rfl⟩
      · exact .inl (by simp_all)
      · rw [concat_eq_append, ← append_assoc] at heq
        exact .inr ⟨pre, post, (append_inj' heq rfl).1, hne, rfl⟩

theorem segments_ne_nil : segments a ≠ [] := splitOn_ne_nil _ _

theorem segments_append : segments (a ++ slash :: b) = segments a ++ segments b := splitOn_append_cons_self a b

theorem mem_ancestors : a ∈ ancestorsOf b ↔ Under a b := by
  rw [ancestorsOf, mem_parents, tail_reverse, reverse_reverse]
  constructor
  · rintro ⟨pre, post, heq, hne, rfl⟩
    have hb : segments b = pre ++ (post ++ [(segments b).getLast segments_ne_nil]) := by
      rw [← append_assoc, ← heq, dropLast_append_getLast]
    refine ⟨join (post ++ [(segments b).getLast segments_ne_nil]), ?_⟩
    rw [← join_append hne (by simp), ← hb]
    exact (intercalate_splitOn slash).symm
  · rintro ⟨rest, rfl⟩
    refine ⟨segments a, (segments rest).dropLast, ?_, segments_ne_nil, (intercalate_splitOn slash).symm⟩
    rw [segments_append, dropLast_append_of_ne_nil segments_ne_nil]

theorem addAncestors_ok : addAncestors paths found l = .ok b' ↔ (∀ a ∈ l, a ∉ paths) ∧ b' = found ++ l := by
  induction l generalizing found with
  | nil => simp [addAncestors, eq_comm]
  | cons a l ih =>
    by_cases ha : a ∈ paths
    · simp [addAncestors, ha]
    · simp [addAncestors, ha, ih]

theorem readContent_ok {size readBytes content} (h : readBytes + (content.sum : ℤ) = size) :
    readContent size readBytes content = .ok () := by
  induction content generalizing readBytes with
  | nil => simp_all [readContent]
  | cons bytes rest ih =>
    rw [sum_cons] at h
    rw [readContent, if_neg (by omega)]
    exact ih (by omega)

/-! ## 一つの項目 -/

namespace TarEntry

def bytes (e : TarEntry) : ℤ := e.size.safeInteger?.getD 0

def Regular (e : TarEntry) : Prop :=
  e.isFile = true ∧ e.linkname.getD [] = [] ∧ ∃ n, e.size.safeInteger? = some n ∧ 0 ≤ n

end TarEntry

structure Fits (es : List TarEntry) (e : TarEntry) : Prop where
  safe : Safe e.name
  regular : e.Regular
  fresh : e.name ∉ es.map TarEntry.name
  room : es.length < maxFiles
  total : (es.map TarEntry.bytes).sum + e.bytes ≤ maxSourceBytes
  notAbove : ∀ p ∈ es, ¬ Under e.name p.name
  notBelow : ∀ p ∈ es, ¬ Under p.name e.name

structure Reads (s : Reader) (es : List TarEntry) : Prop where
  entries : s.entries = es.map fun e => (e.name, e.bytes)
  paths : s.paths = es.map TarEntry.name
  ancestors : ∀ a, a ∈ s.ancestors ↔ ∃ p ∈ es, Under a p.name
  sourceBytes : s.sourceBytes = (es.map TarEntry.bytes).sum

def Reader.entered (s : Reader) (e : TarEntry) : Reader where
  entries := s.entries ++ [(e.name, e.bytes)]
  paths := s.paths ++ [e.name]
  ancestors := s.ancestors ++ ancestorsOf e.name
  sourceBytes := s.sourceBytes + e.bytes

theorem Reads.entered (h : Reads s es) : Reads (s.entered e) (es ++ [e]) where
  entries := by simp [Reader.entered, h.entries]
  paths := by simp [Reader.entered, h.paths]
  ancestors a := by simp [Reader.entered, h.ancestors, mem_ancestors]
  sourceBytes := by simp [Reader.entered, h.sourceBytes]

theorem Reads.add (h : Reads s es) : addAncestors s.paths s.ancestors (ancestorsOf e.name) = .ok found ↔
    (∀ p ∈ es, ¬ Under p.name e.name) ∧ found = s.ancestors ++ ancestorsOf e.name := by
  rw [addAncestors_ok, h.paths]
  simp only [mem_ancestors, mem_map, not_exists, not_and]
  grind

theorem Reads.consume (h : Reads s es) : s.consume e = .ok s' ↔ Fits es e ∧ s' = s.entered e := by
  have hle : s.paths.length = es.length := by simp [h.paths]
  have hmem : e.name ∈ s.paths ↔ e.name ∈ es.map TarEntry.name := by rw [h.paths]
  have hab : e.name ∈ s.ancestors ↔ ∃ p ∈ es, Under e.name p.name := h.ancestors e.name
  constructor
  · intro hc
    simp only [Reader.consume, bind, Except.bind] at hc
    cases hsa : assertFrontendArchivePath e.name with
    | error error => simp [hsa] at hc
    | ok u =>
      cases hsi : e.size.safeInteger? with
      | none => simp [hsa, hsi] at hc
      | some n =>
        simp only [hsa, hsi] at hc
        split at hc
        · cases hc
        rename_i hrg
        split at hc
        · cases hc
        rename_i hfr
        split at hc
        · cases hc
        rename_i hlis
        split at hc
        · cases hc
        rename_i hans
        cases hadd : addAncestors s.paths s.ancestors (ancestorsOf e.name) with
        | error error => simp [hadd] at hc
        | ok found =>
          obtain ⟨hbe, rfl⟩ := h.add.mp hadd
          have hbys : e.bytes = n := by simp [TarEntry.bytes, hsi]
          simp at hrg hlis
          simp only [hadd, readContent_ok (show 0 + (e.content.sum : ℤ) = n by simpa using e.whole n (by tauto) hsi)] at hc
          obtain rfl := Except.ok.inj hc
          exact ⟨⟨hsa, ⟨by tauto, by tauto, n, hsi, by tauto⟩, by rwa [← hmem], by omega, by rw [← h.sourceBytes, hbys]; omega,
            by grind, hbe⟩, by simp [Reader.entered, hbys]⟩
  · rintro ⟨hfi, rfl⟩
    obtain ⟨hfl, hli, n, hsi, hpos⟩ := hfi.regular
    have hbys : e.bytes = n := by simp [TarEntry.bytes, hsi]
    have hadd := (h.add (e := e)).mpr ⟨hfi.notBelow, rfl⟩
    have hsa := hfi.safe
    have hco : readContent n 0 e.content = .ok () := readContent_ok (by simpa using e.whole n hpos hsi)
    have hto := hfi.total
    have hro := hfi.room
    rw [Safe] at hsa
    rw [← h.sourceBytes, hbys] at hto
    have hno : ¬ (s.paths.length ≥ maxFiles ∨ s.sourceBytes + n > maxSourceBytes) := by omega
    have hfr : e.name ∉ s.paths := by rw [hmem]; exact hfi.fresh
    have hans : e.name ∉ s.ancestors := by rw [hab]; simpa using hfi.notAbove
    simp [Reader.consume, bind, Except.bind, pure, Except.pure, hsa, hsi, hfl, hli, hpos, hfr, hno, hans, hadd, hco, Reader.entered, hbys]

/-! ## 項目の列 -/

structure Acceptable (es : List TarEntry) : Prop where
  safe : ∀ e ∈ es, Safe e.name
  regular : ∀ e ∈ es, e.Regular
  distinct : (es.map TarEntry.name).Nodup
  apart : ∀ e ∈ es, ∀ p ∈ es, ¬ Under e.name p.name
  count : es.length ≤ maxFiles
  total : (es.map TarEntry.bytes).sum ≤ maxSourceBytes

theorem Acceptable.perm {es'} (h : Acceptable es) (hp : es.Perm es') : Acceptable es' where
  safe e he := h.safe e (hp.mem_iff.mpr he)
  regular e he := h.regular e (hp.mem_iff.mpr he)
  distinct := (hp.map _).nodup_iff.mp h.distinct
  apart e he p hp' := h.apart e (hp.mem_iff.mpr he) p (hp.mem_iff.mpr hp')
  count := hp.length_eq ▸ h.count
  total := (hp.map TarEntry.bytes).sum_eq ▸ h.total

theorem not_under_self : ¬ Under a a := by
  rintro ⟨rest, h⟩
  simpa using congrArg length h

theorem TarEntry.Regular.bytes_nonneg (h : e.Regular) : 0 ≤ e.bytes := by
  obtain ⟨-, -, n, hn, hpos⟩ := h
  simpa [TarEntry.bytes, hn] using hpos

theorem acceptable_concat : Acceptable (es ++ [e]) ↔ Acceptable es ∧ Fits es e := by
  constructor
  · intro h
    have hin : ∀ p ∈ es, p ∈ es ++ [e] := fun p hp => mem_append_left _ hp
    have he : e ∈ es ++ [e] := by simp
    have hdi := h.distinct
    have hcn := h.count
    have hto := h.total
    have hnn := (h.regular e he).bytes_nonneg
    simp only [map_append, map_cons, map_nil, sum_append, sum_singleton, length_append,
      length_singleton] at hdi hcn hto
    refine ⟨⟨fun p hp => h.safe p (hin p hp), fun p hp => h.regular p (hin p hp), hdi.of_append_left,
      fun p hp q hq => h.apart p (hin p hp) q (hin q hq), by omega, by omega⟩, h.safe e he, h.regular e he, ?_, by omega, hto,
      fun p hp => h.apart e he p (hin p hp), fun p hp => h.apart p (hin p hp) e he⟩
    exact fun hmem => (nodup_append.mp hdi).2.2 _ hmem _ (mem_singleton_self _) rfl
  · rintro ⟨h, hfi⟩
    refine ⟨?_, ?_, ?_, ?_, ?_, ?_⟩
    · grind [h.safe, hfi.safe]
    · grind [h.regular, hfi.regular]
    · rw [map_append]
      exact h.distinct.append (by simp) (by simpa using hfi.fresh)
    · intro p hp q hq
      rcases mem_append.mp hp with hp | hp <;> rcases mem_append.mp hq with hq | hq
      · exact h.apart p hp q hq
      · exact mem_singleton.mp hq ▸ hfi.notBelow p hp
      · exact mem_singleton.mp hp ▸ hfi.notAbove q hq
      · exact mem_singleton.mp hp ▸ mem_singleton.mp hq ▸ not_under_self
    · have := hfi.room
      rw [length_append, length_singleton]
      omega
    · simpa using hfi.total

theorem consume_all : (∀ s, es.foldlM consume {} = .ok s → Acceptable es ∧ Reads s es) ∧
    (Acceptable es → ∃ s, es.foldlM consume {} = .ok s) := by
  induction es using reverseRecOn with
  | nil =>
    refine ⟨fun s hs => ?_, fun _ => ⟨{}, rfl⟩⟩
    obtain rfl : ({} : Reader) = s := by simpa [pure, Except.pure] using hs
    exact ⟨⟨by simp, by simp, by simp, by simp, by simp, by simp⟩, ⟨rfl, rfl, by simp, rfl⟩⟩
  | append_singleton es e ih =>
    simp only [foldlM_append, foldlM_cons, foldlM_nil, bind_pure]
    constructor
    · intro s hs
      cases hre : es.foldlM consume {} with
      | error error => simp [hre, bind, Except.bind] at hs
      | ok s₁ =>
        obtain ⟨hac, hres⟩ := ih.1 s₁ hre
        obtain ⟨hfi, rfl⟩ := hres.consume.mp (by simpa [hre, bind, Except.bind] using hs)
        exact ⟨acceptable_concat.mpr ⟨hac, hfi⟩, hres.entered⟩
    · intro h
      obtain ⟨hac, hfi⟩ := acceptable_concat.mp h
      obtain ⟨s₁, hre⟩ := ih.2 hac
      obtain ⟨-, hres⟩ := ih.1 s₁ hre
      exact ⟨s₁.entered e, by simpa [hre, bind, Except.bind] using hres.consume.mpr ⟨hfi, rfl⟩⟩

/-! ## 出力先 -/

theorem Safe.segments (h : Safe a) : ∀ s ∈ segments a, s ≠ [] ∧ s ≠ [0x2E] ∧ s ≠ [0x2E, 0x2E] := by
  unfold Safe assertFrontendArchivePath at h
  split at h
  · cases h
  · rename_i hsa
    simp only [Bool.or_eq_true, not_or, any_eq_true, not_exists, not_and, beq_iff_eq] at hsa
    intro s hs
    exact ⟨fun he => (hsa.1.2 s hs).1.1 he, fun he => (hsa.1.2 s hs).1.2 he, fun he => (hsa.1.2 s hs).2 he⟩

theorem Safe.outputPath (h : Safe a) (outputDirectory) :
    outputPath outputDirectory a = normalize (FrontendArchive.segments outputDirectory) ++ FrontendArchive.segments a := by
  have hfo : ∀ absolute (ss out : List Path), (∀ s ∈ ss, s ≠ [] ∧ s ≠ [0x2E] ∧ s ≠ [0x2E, 0x2E]) →
      ss.foldl (normalizeStep absolute) out = out ++ ss := by
    intro absolute ss
    induction ss with
    | nil => simp
    | cons s ss ih =>
      intro out hss
      obtain ⟨⟨h₀, h₁, h₂⟩, hrs⟩ := forall_mem_cons.mp hss
      rw [foldl_cons, normalizeStep, if_neg (by simp [h₀, h₁]), if_neg (by simp [h₂]), ih _ hrs]
      simp
  rw [FrontendArchive.outputPath, segments_append, normalize, normalize, foldl_append, head?_append_of_ne_nil _ segments_ne_nil]
  exact hfo _ _ _ h.segments

theorem check_ok {files : Files} {total rest} (h : files.check total rest = .ok ()) :
    (∀ f ∈ rest, Safe f.1 ∧ ∀ p ∈ files.toList, ¬ Under p.1 f.1) ∧ total + (rest.map fun f => f.2.length).sum ≤ max total maxSourceBytes := by
  induction rest generalizing total with
  | nil => simp
  | cons f rest ih =>
    obtain ⟨path, content⟩ := f
    simp only [Files.check, bind, Except.bind] at h
    cases hsa : assertFrontendArchivePath path with
    | error error => simp [hsa] at h
    | ok u =>
      simp only [hsa] at h
      split at h
      · cases h
      rename_i hsi
      split at h
      · cases h
      rename_i hany
      obtain ⟨hrs, hto⟩ := ih h
      refine ⟨forall_mem_cons.mpr ⟨⟨hsa, fun p hp hund => ?_⟩, hrs⟩, ?_⟩
      · simp only [any_eq_true, not_exists, not_and] at hany
        exact hany p.1 (mem_ancestors.mpr hund) (by simpa using ⟨p.2, hp⟩)
      · simp only [map_cons, sum_cons]
        omega

end Supacloud.FrontendArchive
