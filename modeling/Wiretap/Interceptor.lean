import Wiretap.Error
import Wiretap.Http.Response
import Wiretap.Report

/-!
# Interceptors

An interceptor watches one intercepted connection. It never sees the
connection itself: it is handed the body of each tapped request, which it may
replace, and on every read the whole body of the response so far. `reset`
comes before each tapped request.
-/

namespace Wiretap

structure Interceptor (σ : Type) where
  /-- The state at the start of a connection. -/
  start : σ
  reset : σ → σ
  /-- Body, host and path of a tapped request; the body to send instead. -/
  request : σ → Bytes → String → String → Except Error Bytes × σ
  /-- Body so far, host, path and headers of a response. -/
  response : σ → Bytes → String → String → Http.Headers → Except Error Report × σ

end Wiretap
