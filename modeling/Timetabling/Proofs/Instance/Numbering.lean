import Timetabling.Proofs.Instance.Resolution

/-! Courses come into the records without numbers of their own: the curricula and the teacher of a
    course are numbered when the records are resolved. Main statement: the numbers that courses carry
    beforehand have no part in what the records resolve to. -/

namespace Timetabling

/-- The course before its curricula and its teacher are numbered. -/
def Course.unnumbered (c : Course) : Course := { c with curricula := [], teacherNumber := 0 }

namespace Records

variable (r : Records)

/-- The records before the curricula and the teachers of their courses are numbered. -/
def unnumbered : Records := { r with courses := r.courses.map Course.unnumbered }

theorem hasCourse_unnumbered : r.unnumbered.hasCourse = r.hasCourse := by
  funext id
  rw [hasCourse, unnumbered, List.any_map]
  rfl

theorem courseNumber?_unnumbered : r.unnumbered.courseNumber? = r.courseNumber? := by
  funext id
  rw [courseNumber?, unnumbered, List.findIdx?_map]
  rfl

theorem defects_unnumbered : r.unnumbered.defects = r.defects := by
  have hids : r.unnumbered.courses.map Course.id = r.courses.map Course.id := by
    rw [unnumbered, List.map_map]
    rfl
  have hus : r.unnumbered.unavailabilityDefects = r.unavailabilityDefects := by
    funext u
    rw [unavailabilityDefects, hasCourse_unnumbered]
    rfl
  have hks : r.unnumbered.constraintDefects = r.constraintDefects := by
    funext k
    rw [constraintDefects, hasCourse_unnumbered]
    rfl
  rw [defects, defects, hids, curriculumDefects_congr (hasCourse_unnumbered r), hus, hks]
  rfl

theorem link?_unnumbered : r.unnumbered.link? = r.link? := by
  have hmembers : r.unnumbered.members? = r.members? := by
    funext q
    rw [members?, courseNumber?_unnumbered, members?]
  have hus : r.unnumbered.unavailabilityMark? = r.unavailabilityMark? := by
    funext u
    rw [unavailabilityMark?, courseNumber?_unnumbered]
    rfl
  have hks : r.unnumbered.constraintMark? = r.constraintMark? := by
    funext k
    rw [constraintMark?, courseNumber?_unnumbered]
    rfl
  have hteachers : r.unnumbered.teacherNames = r.teacherNames := by
    rw [teacherNames, unnumbered, List.map_map]
    rfl
  have hcourses : ∀ members, (r.unnumbered.courses.zipIdx.map fun c =>
      r.unnumbered.numbered members c.1 c.2) =
        r.courses.zipIdx.map fun c => r.numbered members c.1 c.2 := by
    intro members
    rw [unnumbered, List.zipIdx_map, List.map_map]
    refine List.map_congr_left fun c _ => ?_
    exact congrArg (fun names => ({ c.1 with
      curricula := _
      teacherNumber := names.idxOf c.1.teacher } : Course)) hteachers
  have hlength : r.unnumbered.courses.length = r.courses.length := by
    rw [unnumbered, List.length_map]
  rw [link?, link?, hmembers, hus, hks]
  simp only [hteachers, hcourses, hlength]
  rfl

/-- The numbers that courses carry beforehand have no part in what the records resolve to. -/
theorem resolve_unnumbered : r.unnumbered.resolve = r.resolve := by
  rw [resolve, resolve, defects_unnumbered, link?_unnumbered]

end Records

end Timetabling
