import VfsOss.Sm.Paths
import VfsOss.CLib.Proofs.PathProofs
import VfsOss.CLib.Proofs.DecimalProofs

/-!
# Proofs: the files of a block

The names tell the host, the last component of the file name, the index and the count.
-/

namespace VfsOss

open CLib

/-! ## The last component of a file name -/

theorem basename_source {dir name : Bytes} (h : (47 : UInt8) ∉ name) (hne : name ≠ []) :
    basename (dir ++ 47 :: name) = name := by
  obtain ⟨x, hx⟩ : ∃ x, name.reverse.head? = some x := by
    rcases hr : name.reverse with _ | ⟨x, r⟩
    · exact absurd (List.reverse_eq_nil_iff.mp hr) hne
    · exact ⟨x, rfl⟩
  obtain ⟨r, hr⟩ : ∃ r, name.reverse = x :: r := by
    rcases hr : name.reverse with _ | ⟨y, r⟩
    · rw [hr] at hx
      exact absurd hx (by simp)
    · rw [hr] at hx
      exact ⟨r, by rw [Option.some.inj hx]⟩
  have hx47 : x ≠ 47 := by
    rintro rfl
    exact h (List.mem_reverse.mp (hr ▸ List.mem_cons_self))
  have hall : ∀ b ∈ name.reverse, decide (b ≠ 47) = true := by
    intro b hb
    have : b ≠ 47 := fun he => h (he ▸ List.mem_reverse.mp hb)
    simpa using this
  have hrev : (dir ++ 47 :: name).reverse = name.reverse ++ 47 :: dir.reverse := by simp
  unfold basename
  rw [if_neg (by simp), hrev]
  have hdrop : (name.reverse ++ 47 :: dir.reverse).dropWhile (· = 47) =
      name.reverse ++ 47 :: dir.reverse := by
    rw [hr, List.cons_append, List.dropWhile_cons_of_neg (by simpa using hx47)]
  rw [hdrop, hr]
  simp only [List.cons_append]
  rw [← List.cons_append, ← hr, List.takeWhile_append_of_pos hall,
    List.takeWhile_cons_of_neg (by simp), List.append_nil, List.reverse_reverse]

/-! ## Collisions -/

theorem getLocaldir_source (cfg : Cfg) (hostname : Bytes) {path dir name : Bytes}
    (hpath : path = dir ++ 47 :: name) (h : (47 : UInt8) ∉ name) (hne : name ≠ [])
    (hlen : path.length < 256) :
    getLocaldir cfg hostname path = (cfg.dstDatadir ++ 47 :: hostname) ++ 47 :: name := by
  have hcut : snprintf 256 path = path := List.take_of_length_le (by omega)
  have hslash : txt "/" = [47] := rfl
  rw [getLocaldir, hcut, hpath, basename_source h hne, hslash]
  simp

theorem tmpPath_eq (cfg : Cfg) (hostname filename : Bytes) (idx count : Int)
    (hfit : (getLocaldir cfg hostname filename ++ blockSuffix idx count).length < 256) :
    tmpPath cfg hostname filename idx count =
      getLocaldir cfg hostname filename ++ blockSuffix idx count := by
  have hline : getLocaldir cfg hostname filename ++ txt "_" ++ fmtInt idx ++ txt "_" ++ fmtInt count =
      getLocaldir cfg hostname filename ++ blockSuffix idx count := by
    simp [blockSuffix]
  rw [tmpPath, subfile, hline]
  exact List.take_of_length_le (by omega)

theorem slash_not_mem_blockSuffix (idx count : Int) : (47 : UInt8) ∉ blockSuffix idx count := by
  have hnum : ∀ n, (47 : UInt8) ∉ fmtInt n := fun n => not_mem_fmtInt (by decide) (by decide)
  have hund : (47 : UInt8) ∉ txt "_" := by decide
  simp [blockSuffix, hnum, hund]

theorem append_blockSuffix_inj {a b : Bytes} {i c j d : Int} :
    a ++ blockSuffix i c = b ++ blockSuffix j d ↔ a = b ∧ i = j ∧ c = d := by
  have hnum : ∀ n, (95 : UInt8) ∉ fmtInt n := fun n => not_mem_fmtInt (by decide) (by decide)
  have hline : ∀ (x : Bytes) (k e : Int),
      x ++ blockSuffix k e = (x ++ 95 :: fmtInt k) ++ 95 :: fmtInt e := by
    intro x k e
    have hund : txt "_" = [95] := rfl
    simp [blockSuffix, hund]
  constructor
  · intro h
    rw [hline, hline] at h
    obtain ⟨h1, h2⟩ := (append_sep_inj (hnum c) (hnum d)).mp h
    obtain ⟨h3, h4⟩ := (append_sep_inj (hnum i) (hnum j)).mp h1
    exact ⟨h3, fmtInt_injective h4, fmtInt_injective h2⟩
  · rintro ⟨rfl, rfl, rfl⟩
    rfl

/-- **Distinct blocks use distinct files**, up to the directory of the source file: while no name is
cut, the temporary file tells the host, the last component of the source path, the index and the count,
the merged file tells the first two, and the two only meet in a source file that is named like a
temporary file. -/
theorem blocks_use_own_files (cfg : Cfg) (h₁ f₁ h₂ f₂ : Bytes) (i₁ c₁ i₂ c₂ : Int)
    (hf₁ : SourcePath f₁) (hf₂ : SourcePath f₂) (hl₁ : f₁.length < 256) (hl₂ : f₂.length < 256)
    (hfit₁ : (getLocaldir cfg h₁ f₁ ++ blockSuffix i₁ c₁).length < 256)
    (hfit₂ : (getLocaldir cfg h₂ f₂ ++ blockSuffix i₂ c₂).length < 256) :
    (tmpPath cfg h₁ f₁ i₁ c₁ = tmpPath cfg h₂ f₂ i₂ c₂ ↔
      h₁ = h₂ ∧ basename f₁ = basename f₂ ∧ i₁ = i₂ ∧ c₁ = c₂) ∧
    (getLocaldir cfg h₁ f₁ = getLocaldir cfg h₂ f₂ ↔ h₁ = h₂ ∧ basename f₁ = basename f₂) ∧
    (tmpPath cfg h₁ f₁ i₁ c₁ = getLocaldir cfg h₂ f₂ ↔
      h₁ = h₂ ∧ basename f₂ = basename f₁ ++ blockSuffix i₁ c₁) := by
  obtain ⟨d₁, n₁, hp₁, hn₁, hne₁⟩ := hf₁
  obtain ⟨d₂, n₂, hp₂, hn₂, hne₂⟩ := hf₂
  have hb₁ : basename f₁ = n₁ := by rw [hp₁, basename_source hn₁ hne₁]
  have hb₂ : basename f₂ = n₂ := by rw [hp₂, basename_source hn₂ hne₂]
  have ho₁ := getLocaldir_source cfg h₁ hp₁ hn₁ hne₁ hl₁
  have ho₂ := getLocaldir_source cfg h₂ hp₂ hn₂ hne₂ hl₂
  -- two paths of this shape tell the host and the last component apart
  have hout : ∀ {a b : Bytes}, (47 : UInt8) ∉ a → (47 : UInt8) ∉ b →
      ((cfg.dstDatadir ++ 47 :: h₁) ++ 47 :: a = (cfg.dstDatadir ++ 47 :: h₂) ++ 47 :: b ↔
        h₁ = h₂ ∧ a = b) := by
    intro a b ha hb
    rw [append_sep_inj ha hb]
    simp
  rw [tmpPath_eq cfg h₁ f₁ i₁ c₁ hfit₁, tmpPath_eq cfg h₂ f₂ i₂ c₂ hfit₂, append_blockSuffix_inj, ho₁, ho₂,
    hout hn₁ hn₂, hb₁, hb₂, and_assoc]
  refine ⟨Iff.rfl, Iff.rfl, ?_⟩
  have hmem : (47 : UInt8) ∉ n₁ ++ blockSuffix i₁ c₁ := by
    simp [hn₁, slash_not_mem_blockSuffix]
  rw [List.append_assoc, List.cons_append, hout hmem hn₂]
  exact and_congr_right fun _ => eq_comm

/-- Two blocks of two files of a host. -/
theorem blocks_use_own_files_two :
    tmpPath .sample (txt "h") (txt "/a/f") 1 2 = txt "/data/vfs/h/f_1_2" ∧
    tmpPath .sample (txt "h") (txt "/a/f") 1 2 ≠ tmpPath .sample (txt "h") (txt "/a/g") 1 2 := by
  have h := blocks_use_own_files .sample (txt "h") (txt "/a/f") (txt "h") (txt "/a/g") 1 2 1 2
    ⟨txt "/a", txt "f", rfl, by decide, by decide⟩ ⟨txt "/a", txt "g", rfl, by decide, by decide⟩
    (by decide) (by decide) (by decide +kernel) (by decide +kernel)
  refine ⟨by decide +kernel, fun he => ?_⟩
  exact absurd (h.1.mp he).2.1 (by decide +kernel)

/-- Two files of one name in two directories are one file on the receiving side. -/
theorem same_name_collides :
    txt "/a/f" ≠ txt "/b/f" ∧
    tmpPath .sample (txt "h") (txt "/a/f") 1 2 = tmpPath .sample (txt "h") (txt "/b/f") 1 2 ∧
    getLocaldir .sample (txt "h") (txt "/a/f") = getLocaldir .sample (txt "h") (txt "/b/f") := by
  decide +kernel

end VfsOss
