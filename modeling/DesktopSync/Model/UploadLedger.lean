import DesktopSync.Computation.Ledger
import DesktopSync.Model.Sender

/-!
# What an upload acquires

`SyncUploadOnce` with the three things it acquires by hand: the address list of
`getaddrinfo`, the reference `UDT::startup` counts, the socket. An exception leaves the
function where it is thrown, and the function has no handler and no destructor for any of
the three.
-/

set_option autoImplicit false

namespace DesktopSync.Model

open Ledger

inductive Resource where
  | addrinfo
  | startup
  | socket
  deriving DecidableEq

/-- What the transport answers before the first byte is sent. -/
structure TransportEnv where
  /-- `UDT::startup()` does not throw.
  SOURCE: udt4/src/api.cpp:181-218 -/
  starts : Bool
  /-- `UDT::socket` returns a socket.
  SOURCE: udt4/src/api.cpp:1562-1586 -/
  opens : Bool

/-- A call of `SyncUploadOnce` and what it acquired and released, in order. -/
structure LedgeredUpload where
  upload : Upload
  ledger : List (Entry Resource)

/-- `UDT::socket`, which may return no socket. -/
def TransportEnv.socket (transport : TransportEnv) : List (Entry Resource) :=
  if transport.opens then [.acquire .socket] else []

/-- `UDT::close(sock)`, which does nothing to what is no socket. -/
def TransportEnv.close (transport : TransportEnv) : List (Entry Resource) :=
  if transport.opens then [.release .socket] else []

/-- SOURCE: sync_dll.cpp:249-294 -/
def syncUploadOnceLedger (cfg : Option IniState) (peerIp : Option WString) (env : UploadEnv)
    (transport : TransportEnv) (sink : Wire) : LedgeredUpload :=
  let st : SendState := ⟨sink, 0, [], []⟩
  match cfg, peerIp with
  | some cfg, some peerIp =>
      if !env.resolves (wideToUtf8 peerIp) then ⟨.early (.returned false) st, []⟩
      else if !transport.starts then
        -- the reference is counted before `WSAStartup` is called
        ⟨.early .threw st, [.acquire .addrinfo, .acquire .startup]⟩
      else
        let acquired := [.acquire .addrinfo, .acquire .startup] ++ transport.socket
        if !(transport.opens && env.connects) then
          ⟨.early (.returned false) (st.report ⟨.error, 0, 0, "connect failed"⟩),
            acquired ++ [.release .addrinfo] ++ transport.close ++ [.release .startup]⟩
        else
          match collectFiles cfg.desktopPath cfg.lastSync env.listing with
          | none => ⟨.early .threw st, acquired⟩
          | some entries =>
              match totalSize entries with
              | none => ⟨.early .threw st, acquired⟩
              | some total =>
                  let upload := uploadFiles env.md5 env.now total env.pads
                    (st.report ⟨.uploading, 0, total, ""⟩) (entries.map DirEntry.file)
                  if upload.result = .threw then ⟨upload, acquired⟩
                  else ⟨upload, acquired ++ transport.close ++ [.release .startup]⟩
  | _, _ => ⟨.early (.returned false) st, []⟩

/-- With a transport that starts and opens, the call is that of `syncUploadOnce`. -/
theorem syncUploadOnceLedger_upload (cfg : Option IniState) (peerIp : Option WString)
    (env : UploadEnv) (sink : Wire) :
    (syncUploadOnceLedger cfg peerIp env ⟨true, true⟩ sink).upload =
      syncUploadOnce cfg peerIp env sink := by
  unfold syncUploadOnceLedger syncUploadOnce
  cases cfg with
  | none => rfl
  | some cfg =>
      cases peerIp with
      | none => rfl
      | some peerIp =>
          simp only [Bool.not_true, Bool.false_eq_true, if_false, Bool.true_and]
          split
          · rfl
          · split
            · rfl
            · cases collectFiles cfg.desktopPath cfg.lastSync env.listing with
              | none => rfl
              | some entries =>
                  cases htotal : totalSize entries with
                  | none => simp only [htotal]
                  | some total =>
                      simp only [htotal]
                      split <;> rfl

end DesktopSync.Model
