import NodeAgent.Certificate.Manager

/-!
Stand-ins for those who issue certificates: a client that always answers the same, and a program
that writes down how it was called and leaves the files that it was given.
-/

namespace NodeAgent

inductive AuthorityCall
  | obtain (domain : String)
  /-- With the length of the certificate that is there, in bytes. -/
  | renew (domain : String) (size : Nat)
  deriving DecidableEq, Repr

structure ScriptedAuthority where
  obtained : Except String CertPair
  renewed : Except String CertPair

/-- What lies outside the host is the list of calls. -/
instance : CertClient ScriptedAuthority (List AuthorityCall) where
  obtain c domain h :=
    ({ h with outside := h.outside ++ [.obtain domain] }, c.obtained.mapError .client)
  renew c domain existing h :=
    ({ h with outside := h.outside ++ [.renew domain existing.utf8ByteSize] },
      c.renewed.mapError .client)

structure ScriptedProgram where
  /-- Paths and texts. -/
  files : List (String × String) := []
  errors : String := ""
  /-- In seconds, at the end of its work. -/
  sleep : Nat := 0
  succeeds : Bool := true

/-- Perhaps there is a program; if so, the commands with which it was called. -/
structure ProgramRun where
  program : Option ScriptedProgram
  calls : List Command := []

instance : Shell ProgramRun where
  execute c h :=
    match h.outside.program with
    | none => (h, .notStarted .notFound)
    | some p =>
      let files := p.files.foldl (fun t f => (CertManager.writeFile t f.1 f.2).1) h.files
      ({ h with files, outside := { h.outside with calls := h.outside.calls ++ [c] } },
        if c.timeout ≤ p.sleep then .timedOut else .ended p.succeeds p.errors)

end NodeAgent
