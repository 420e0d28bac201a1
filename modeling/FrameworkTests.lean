import FrameworkTests.Multipart.Transfer
import FrameworkTests.Restful.Handlers
import FrameworkTests.Runner.Comparison
import FrameworkTests.Runner.Directory
import FrameworkTests.Runner.FailStop
import FrameworkTests.Runner.Filter
import FrameworkTests.Runner.Transcript
import FrameworkTests.Signals.Session
import FrameworkTests.Transport.Closing
import FrameworkTests.Transport.Incoming
import FrameworkTests.Transport.Ingoing
import FrameworkTests.Transport.LineSplitting
import FrameworkTests.Transport.Outside
import FrameworkTests.Transport.Queries
import FrameworkTests.Transport.Reopening
import FrameworkTests.Transport.Reuse
import FrameworkTests.Transport.Serving
import FrameworkTests.Variant.Iteration
